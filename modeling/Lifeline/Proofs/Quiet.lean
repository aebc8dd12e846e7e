import Lifeline.Proofs.Brackets
import Lifeline.Proofs.Breaking
import Lifeline.Proofs.Headings
import Lifeline.Proofs.Speakers
/-!
# Lines that open and close nothing

Whatever follows it, the first word of a line may rule out that the line opens or closes a
block or a box, or breaks the reading off (`Quiet.of_word`). Such are all lines of a written
diagram but those that stand for brackets (`Headed`) and those of notes, whose placements rule
it out (`Note.silent`).
-/

namespace Lifeline

open Text Text.Pattern

/-! ## Beginnings of trimmed texts -/

namespace Text

/-- A text keeps its first word when it is trimmed. -/
theorem splitWord_trim (cs : List Char) : (splitWord (trim cs)).1 = (splitWord cs).1 := by
  obtain ⟨b, he, hb⟩ := trimStart_eq cs
  have hnone : (b.takeWhile fun c => !isBlank c) = [] := by
    cases b with
    | nil => rfl
    | cons c b => simp [hb c (by simp)]
  have hs : trimStart (trim cs) = trim cs := dropWhile_of_head (tight_trim cs).1
  simp only [splitWord, hs, he, List.takeWhile_append, hnone, List.append_nil]
  split
  · rename_i hl
    exact (List.takeWhile_prefix _).eq_of_length hl
  · rfl

/-- A tight beginning of a text is kept when the text is trimmed. -/
theorem prefix_trim {p : List Char} (hp : Tight p) (h0 : p ≠ []) (rest : List Char) : p <+: trim (p ++ rest) := by
  obtain ⟨b, he, hb⟩ := trimStart_eq (p ++ rest)
  have hs : trimStart (p ++ rest) = p ++ rest := by
    obtain ⟨c, p, rfl⟩ := List.exists_cons_of_ne_nil h0
    exact dropWhile_of_head (by simpa using hp.1 c rfl)
  rw [hs] at he
  generalize trim (p ++ rest) = t at he ⊢
  rcases List.prefix_or_prefix_of_prefix ⟨rest, he⟩ (List.prefix_append t b) with h | ⟨b', h⟩
  · exact h
  · -- What is left of the beginning would be blanks at its end.
    cases hlast : b'.getLast? with
    | none =>
      obtain rfl := List.getLast?_eq_none_iff.1 hlast
      exact ⟨[], by rw [← h, List.append_nil, List.append_nil]⟩
    | some c =>
      have hbs : b' ++ rest = b := by
        rw [← h, List.append_assoc] at he
        exact List.append_cancel_left he
      have hblank := hb c (hbs ▸ List.mem_append_left rest (List.mem_of_getLast? hlast))
      have htight := hp.2 c (by rw [← h, List.getLast?_append, hlast]; rfl)
      rw [hblank] at htight
      cases htight

/-- The first word of a text that begins with it. -/
theorem splitWord_fst {w rest : List Char} (hw : Solid w) (h0 : w ≠ []) (hr : ∀ c ∈ rest.head?, isBlank c = true) :
    (splitWord (w ++ rest)).1 = w := by
  cases rest with
  | nil => rw [List.append_nil, splitWord_solid hw]
  | cons c rest => rw [splitWord_eq hw h0 (hr c rfl)]

end Text

/-! ## First words -/

/-- Whether a line with the given first word neither opens nor closes anything. -/
def isMute (word : List Char) : Bool :=
  !(BlockKind.ofKeyword? (String.ofList word)).isSome && String.ofList word != "box" && word != endWord.toList

/-- Whether a line with the given first word may break a reading off. -/
def mayBreak (word : List Char) : Bool := word == "links".toList || foldWord word == "note".toList

/-- A line that neither opens nor closes anything, nor breaks a reading off. -/
structure Quiet (text : String) : Prop where
  unbroken : ∀ e, ¬Breaks text.toList e
  quiet : ∀ x, Statement.ofLine text = .ok x → x.isQuiet = true

theorem head?_of_someBlanks {α : Type} {next : Matcher α} {cs : List Char} {a : α} (h : someBlanks next cs = some a) :
    ∀ c ∈ cs.head?, isBlank c = true := by
  cases cs with
  | nil => exact nofun
  | cons c cs =>
    rw [someBlanks] at h
    split at h
    · rintro _ ⟨⟩
      assumption
    · cases h

/-- A line that begins like a note on something has `note` as its first word. -/
theorem word_of_notePlacement? {line word : List Char} (h : notePlacement? line = some word) :
    foldWord (splitWord line).1 = "note".toList := by
  obtain ⟨start, rest, rfl, hstart, hrest⟩ := of_caseless h
  have h0 : start ≠ [] := by
    rintro rfl
    cases hstart
  rw [splitWord_fst (hstart.solid (by decide)) h0 (head?_of_someBlanks hrest)]
  exact hstart.foldWord_eq (by decide) (by decide)

/-- A line that attaches several links has `links` as its first word. -/
theorem word_of_linkedAll {line : List Char} {found : List Char × List Char} (h : linkedAll line = some found) :
    (splitWord line).1 = "links".toList := by
  obtain ⟨rest, rfl, hrest⟩ := of_literal h
  exact splitWord_fst (by decide) (by decide) (head?_of_someBlanks hrest)

namespace LineKind

/-- Only the word for a box opens one. -/
theorem word_of_boxStart {line word rest : List Char} (h : ofWord line word rest = .ok .boxStart) :
    String.ofList word = "box" := by
  unfold ofWord at h
  obtain ⟨-, h⟩ := skip h nofun
  obtain ⟨-, h⟩ := skip h nofun
  obtain ⟨-, h⟩ := skip h nofun
  obtain ⟨-, h⟩ := skip h nofun
  obtain ⟨-, h⟩ := skip h nofun
  split at h
  · split at h
    · cases h
    · obtain ⟨placement, -, hp⟩ := map_ok h
      cases placement <;> cases hp
  · obtain ⟨-, h⟩ := skip h nofun
    obtain ⟨-, h⟩ := skip h nofun
    obtain ⟨-, h⟩ := skip h nofun
    split at h
    · rename_i hbox
      exact beq_iff_eq.1 hbox
    · obtain ⟨-, h⟩ := skip h nofun
      obtain ⟨-, h⟩ := skip h nofun
      obtain ⟨-, h⟩ := skip h nofun
      cases h

/-- Only the word for an end closes anything. -/
theorem line_of_close {line word rest : List Char} (h : ofWord line word rest = .ok .close) : line = endWord.toList := by
  obtain ⟨-, hkind⟩ := eq_unclaimed h rfl
  unfold unclaimed at hkind
  split at hkind
  · cases hkind
  · split at hkind
    · rename_i hend
      exact beq_iff_eq.1 hend
    · split at hkind <;> cases hkind

end LineKind

/-! ## Readers of quiet statements -/

theorem readDeclaration_quiet {line : List Char} {x : Statement} (h : readDeclaration line = .ok x) : x.isQuiet = true := by
  obtain ⟨kind, cs, label, id, -, -, rfl⟩ := readDeclaration_ok h
  rfl

theorem readNote_quiet {line : List Char} {x : Statement} (h : readNote line = .ok x) : x.isQuiet = true := by
  obtain ⟨word, targets, text, placement, ids, -, -, -, rfl⟩ := readNote_ok h
  rfl

theorem readLink_quiet {line : List Char} {x : Statement} (h : readLink line = .ok x) : x.isQuiet = true := by
  obtain ⟨cs, id, links, -, rfl, -⟩ := readLink_ok h
  rfl

theorem readMessage_quiet {line : List Char} {x : Statement} (h : readMessage line = .ok x) : x.isQuiet = true := by
  obtain ⟨sighting, source, target, -, -, -, rfl⟩ := readMessage_ok h
  rfl

/-- A line that opens or closes something is of one of three kinds. -/
theorem Statement.quiet_of_ofKind {kind : LineKind} {line : String} {x : Statement} (h : ofKind kind line = .ok x)
    (hblock : kind ≠ .blockStart) (hbox : kind ≠ .boxStart) (hclose : kind ≠ .close) : x.isQuiet = true := by
  cases kind with
  | blockStart => exact absurd rfl hblock
  | boxStart => exact absurd rfl hbox
  | close => exact absurd rfl hclose
  | header | unknown => cases h
  | autonumber | branch =>
    cases h
    rfl
  | participant => exact readDeclaration_quiet h
  | destroy | activation =>
    obtain ⟨id, -, rfl⟩ := map_ok h
    rfl
  | noteLeft | noteRight | noteOver => exact readNote_quiet h
  | link => exact readLink_quiet h
  | message => exact readMessage_quiet h

/-- A line with a mute first word holds a quiet statement, if it holds one. -/
theorem Statement.quiet_of_mute {text : String} (h : isMute (splitWord text.toList).1 = true) {x : Statement}
    (hx : Statement.ofLine text = .ok x) : x.isQuiet = true := by
  simp only [isMute, Bool.and_eq_true, Bool.not_eq_true', bne_iff_ne] at h
  obtain ⟨⟨hblock, hbox⟩, hend⟩ := h
  obtain ⟨kind, hkind, hx⟩ := Statement.ofLine_ok hx
  refine Statement.quiet_of_ofKind hx ?_ ?_ ?_
  · rintro rfl
    exact absurd (hblock.symm.trans (LineKind.holds_of_ofWord hkind)) nofun
  · rintro rfl
    exact hbox (LineKind.word_of_boxStart hkind)
  · rintro rfl
    exact hend (congrArg (fun cs => (splitWord cs).1) (LineKind.line_of_close hkind))

theorem not_breaks_of_word {line : List Char} (h : mayBreak (splitWord line).1 = false) (e : LineError) :
    ¬Breaks line e := by
  simp only [mayBreak, Bool.or_eq_false_iff, beq_eq_false_iff_ne] at h
  rintro (⟨found, -⟩ | ⟨found, -⟩)
  · exact h.2 (word_of_notePlacement? found)
  · exact h.1 (word_of_linkedAll found)

/-- A line whose first word is mute and breaks nothing off is quiet. -/
theorem Quiet.of_word {text : String} (hm : isMute (splitWord text.toList).1 = true)
    (hb : mayBreak (splitWord text.toList).1 = false) : Quiet text :=
  ⟨not_breaks_of_word hb, fun _ => Statement.quiet_of_mute hm⟩

/-- A word with a sign in it is mute and breaks nothing off. -/
theorem isMute_of_mark {word : List Char} {c : Char} (hc : isMark c = true) (hw : c ∈ word) :
    isMute word = true ∧ mayBreak word = false := by
  obtain ⟨hclaimed, -⟩ := LineKind.unclaimed_of_mark hc hw []
  simp only [LineKind.isClaimed, Bool.or_eq_false_iff] at hclaimed
  obtain ⟨⟨⟨⟨⟨-, hnote⟩, -⟩, -⟩, hblock⟩, hbox⟩ := hclaimed
  have hne {k : String} (hk : (k.toList.all fun c => !isMark c) = true) : word ≠ k.toList := by
    rintro rfl
    have := List.all_eq_true.1 hk c hw
    simp [hc] at this
  have hend := @hne endWord (by decide)
  have hlinks := beq_eq_false_iff_ne.2 (@hne "links" (by decide))
  exact ⟨by simp [isMute, hblock, bne, hbox, hend], by rw [mayBreak, hlinks, hnote]; rfl⟩

/-! ## Written lines -/

/-- A line that is quiet once it is trimmed, and one line indeed. -/
structure Silent (text : String) : Prop where
  oneLine : OneLine text.toList
  quiet : Quiet (trimmed text)

/-- A line with a quiet first word. -/
theorem Silent.of_word {text : String} {w rest : List Char} (ht : text.toList = w ++ rest) (hw : Solid w) (h0 : w ≠ [])
    (hr : ∀ c ∈ rest.head?, isBlank c = true) (ho : OneLine rest) (hm : isMute w = true) (hb : mayBreak w = false) :
    Silent text := by
  have hfirst : (splitWord (trimmed text).toList).1 = w := by
    rw [trimmed, String.toList_ofList, splitWord_trim, ht, splitWord_fst hw h0 hr]
  exact ⟨by rw [ht]; exact oneLine_append.2 ⟨hw.oneLine, ho⟩, .of_word (hfirst ▸ hm) (hfirst ▸ hb)⟩

theorem oneLine_flatten {ls : List (List Char)} : OneLine ls.flatten ↔ ∀ l ∈ ls, OneLine l := by
  simp only [OneLine, List.mem_flatten]
  constructor
  · intro h l hl c hc
    exact h c ⟨l, hl, hc⟩
  · rintro h c ⟨l, hl, hc⟩
    exact h l hl c hc

theorem oneLine_escape {cs : List Char} (h : OneLine cs) : OneLine (escape cs) := by
  have hq : isLineBreak '"' = false := rfl
  rcases escape_cases h with he | ⟨he, -⟩
  · rw [he]
    simp [h, hq]
  · rw [he]
    exact h

theorem oneLine_textTail {text : Option String} (h : ∀ t ∈ text, OneLine t.toList) : OneLine (textTail text) := by
  have hc : isLineBreak ':' = false := rfl
  have hb : isLineBreak ' ' = false := rfl
  cases text with
  | none => exact oneLine_nil
  | some t =>
    rw [textTail]
    split
    · simp [hc]
    · simp [hc, hb, oneLine_escape (h t rfl)]

/-- The parts of a line that begins with a word. -/
theorem joinParts_toList {word : String} (hw : word ≠ "") (parts : List (Option String)) :
    (joinParts (some word :: parts)).toList =
      word.toList ++ ((parts.filterMap id).filter fun s => !s.isEmpty).flatMap fun s => ' ' :: s.toList := by
  have hjoin : ∀ w : String, ∀ ws : List String,
      (" ".intercalate (w :: ws)).toList = w.toList ++ ws.flatMap fun s => ' ' :: s.toList := by
    intro w ws
    induction ws generalizing w with
    | nil => simp
    | cons x ws ih => simp [ih x]
  simp [joinParts, hw, hjoin]

/-- What follows the first word of a line of parts. -/
theorem rest_joinParts {parts : List (Option String)} (h : ∀ s, some s ∈ parts → OneLine s.toList) :
    OneLine (((parts.filterMap id).filter fun s => !s.isEmpty).flatMap fun s => ' ' :: s.toList) ∧
      ∀ c ∈ (((parts.filterMap id).filter fun s => !s.isEmpty).flatMap fun s => ' ' :: s.toList).head?,
        isBlank c = true := by
  have hb : isLineBreak ' ' = false := rfl
  constructor
  · rw [List.flatMap_def, oneLine_flatten]
    intro l hl
    obtain ⟨s, hs, rfl⟩ := List.mem_map.1 hl
    obtain ⟨hs, -⟩ := List.mem_filter.1 hs
    exact oneLine_cons.2 ⟨hb, h s (by simpa using hs)⟩
  · cases (parts.filterMap id).filter fun s => !s.isEmpty with
    | nil => exact nofun
    | cons s ws =>
      rintro _ ⟨⟩
      rfl

/-! ### Messages and notes -/

/-- A message is no bracket if its source has no blanks. -/
theorem Message.silent {m : Message} (hs : Solid m.source.id.toList) (ht : OneLine m.target.id.toList)
    (hx : ∀ t ∈ m.text, OneLine t.toList) : Silent m.line := by
  obtain ⟨ha, hd⟩ := literal_solid m.arrow
  have hmark : ∀ e : Endpoint, Solid e.mark.toList := fun e => by
    unfold Endpoint.mark
    split
    · decide
    · split <;> decide
  have hw : Solid (m.source.written ++ m.arrow.literal) := by
    intro c hc
    rcases List.mem_append.1 hc with hc | hc
    · exact (List.mem_append.1 hc).elim (hmark m.source c) (hs c)
    · exact ha c hc
  have hl : m.line.toList = (m.source.written ++ m.arrow.literal) ++ (m.target.written ++ textTail m.text) := by
    rw [line_toList]
    simp
  have hfirst : '-' ∈ (splitWord (trimmed m.line).toList).1 := by
    rw [trimmed, String.toList_ofList, splitWord_trim, hl]
    exact mem_splitWord_fst hw (List.mem_append_right _ hd)
  obtain ⟨hmute, hbreak⟩ := isMute_of_mark rfl hfirst
  refine ⟨?_, .of_word hmute hbreak⟩
  have hwritten : OneLine m.target.written := oneLine_append.2 ⟨(hmark m.target).oneLine, ht⟩
  rw [hl]
  exact oneLine_append.2 ⟨hw.oneLine, oneLine_append.2 ⟨hwritten, oneLine_textTail hx⟩⟩

theorem Placement.passes_word (placement : Placement) : Passes placement.word.toList placement.word.toList :=
  List.forall₂_same.2 (List.all_eq_true.1 (by cases placement <;> decide))

theorem oneLine_commaSeparated {ids : List String} (h : ∀ id ∈ ids, OneLine id.toList) : OneLine (commaSeparated ids) := by
  have hc : isLineBreak ',' = false := rfl
  induction ids with
  | nil => exact oneLine_nil
  | cons id ids ih =>
    obtain ⟨hid, hids⟩ := List.forall_mem_cons.1 h
    cases ids with
    | nil => rwa [commaSeparated_singleton]
    | cons id' ids =>
      rw [commaSeparated_cons, oneLine_append, oneLine_cons]
      exact ⟨hid, hc, ih hids⟩

theorem Note.oneLine_targets {n : Note} {targets : String} (h : n.targetText? = some targets)
    (hids : ∀ id ∈ n.targets, OneLine id.toList) : OneLine targets.toList := by
  unfold targetText? at h
  split at h
  · obtain rfl := Option.some.inj h
    exact oneLine_commaSeparated hids
  · exact hids targets (List.mem_of_head? h)

/-- The beginning of the line of a note. -/
def Placement.noteStart (placement : Placement) : List Char := "Note".toList ++ ' ' :: placement.words.toList

theorem Placement.noteStart_tight (placement : Placement) : Tight placement.noteStart := by
  cases placement <;> (constructor <;> (rintro _ ⟨⟩; rfl))

theorem Placement.noteStart_oneLine (placement : Placement) : OneLine placement.noteStart := by
  cases placement <;> decide

/-- A line that begins like a note with a placement is quiet, whatever follows. -/
theorem quiet_of_note {text : String} (placement : Placement) (h : placement.noteStart <+: text.toList) : Quiet text := by
  obtain ⟨rest, hl⟩ := h
  have hN : Solid "Note".toList := by decide
  rw [Placement.noteStart, List.append_assoc, List.cons_append] at hl
  have hfirst : (splitWord text.toList).1 = "Note".toList := by
    rw [← hl]
    exact splitWord_fst hN (by decide) (by rintro _ ⟨⟩; rfl)
  refine ⟨?_, fun x => Statement.quiet_of_mute (by rw [hfirst]; decide)⟩
  rintro e (⟨found, odd⟩ | ⟨found, -⟩)
  · -- The placement that is found is the one that is written, which has no odd letter.
    obtain ⟨placement', hword, hp⟩ := of_notePlacement? found
    have hrest : (text.toList.drop 4).dropWhile isBlank = placement.words.toList ++ rest := by
      rw [← hl]
      cases placement <;> rfl
    have hplace : placement.word.toList <+: placement.words.toList ++ rest := by
      cases placement <;> exact ⟨_, rfl⟩
    rw [hrest] at hp
    obtain rfl := Placement.word_unique placement.passes_word hword hplace hp
    revert odd
    cases placement <;> decide
  · exact absurd (hfirst.symm.trans (word_of_linkedAll found)) (by decide)

/-- A note is no bracket, and read by the placement that it has. -/
theorem Note.silent {n : Note} {text : String} (h : n.line = .ok text) (ht : OneLine n.text.toList)
    (hids : ∀ id ∈ n.targets, OneLine id.toList) : Silent text := by
  unfold line at h
  split at h
  · rename_i targets htargets
    obtain rfl := Except.ok.inj h
    have hb : isLineBreak ' ' = false := rfl
    have hl : (withText ("Note " ++ n.placement.words ++ " " ++ targets) (some n.text)).toList =
        n.placement.noteStart ++ ' ' :: (targets.toList ++ textTail (some n.text)) := by
      rw [withText_toList]
      simp [Placement.noteStart]
    have htail : OneLine (textTail (some n.text)) := oneLine_textTail (by rintro _ ⟨⟩; exact ht)
    refine ⟨?_, quiet_of_note n.placement ?_⟩
    · rw [hl, oneLine_append, oneLine_cons, oneLine_append]
      exact ⟨n.placement.noteStart_oneLine, hb, oneLine_targets htargets hids, htail⟩
    · rw [trimmed, String.toList_ofList, hl]
      exact prefix_trim n.placement.noteStart_tight (by simp [Placement.noteStart]) _
  · cases h

/-! ### Other lines without a bracket -/

/-- A line of a word, a blank and more. -/
theorem Silent.of_words {text : String} {w rest : List Char} (ht : text.toList = w ++ ' ' :: rest) (hw : Solid w)
    (h0 : w ≠ []) (ho : OneLine rest) (hm : isMute w = true) (hb : mayBreak w = false) : Silent text :=
  .of_word ht hw h0 (by rintro _ ⟨⟩; rfl) (oneLine_cons.2 ⟨rfl, ho⟩) hm hb

theorem silent_autonumber : Silent autonumberWord := by
  have hl : autonumberWord.toList = autonumberWord.toList ++ [] := rfl
  exact .of_word hl (by decide) (by decide) nofun oneLine_nil (by decide) (by decide)

theorem silent_directive {kind : DirectiveKind} {id : String} (hid : OneLine id.toList) :
    Silent (kind.word ++ " " ++ id) := by
  refine .of_words (w := kind.word.toList) (by simp) kind.word_solid ?_ hid ?_ ?_ <;> (cases kind <;> decide)

/-- The line of a further branch, with any branch keyword. -/
theorem silent_branch {keyword : String} (hk : (BlockKind.ofBranchKeyword? keyword).isSome = true) {label : Option String}
    (hl : ∀ l ∈ label, OneLine l.toList) : Silent (joinParts [some keyword, label]) := by
  have hw : keyword ≠ "" ∧ Solid keyword.toList ∧ isMute keyword.toList = true ∧ mayBreak keyword.toList = false := by
    obtain ⟨kind, hkind⟩ := Option.isSome_iff_exists.1 hk
    have hbranch := BlockKind.branchKeyword?_of_ofBranchKeyword? hkind
    cases kind <;> cases hbranch <;> decide
  have hparts : ∀ s, some s ∈ [label] → OneLine s.toList := fun s hs => hl s (List.mem_singleton.1 hs).symm
  obtain ⟨ho, hr⟩ := rest_joinParts hparts
  exact .of_word (joinParts_toList hw.1 [label]) hw.2.1 (by simpa using hw.1) hr ho hw.2.2.1 hw.2.2.2

/-- The strings of a participant are free of line breaks. -/
structure Participant.Breakless (p : Participant) : Prop where
  id : OneLine p.id.toList
  label : ∀ l ∈ p.label, OneLine l.toList
  links : ∀ l ∈ p.links, OneLine l.label.text.toList ∧ OneLine l.url.text.toList

namespace Participant.Breakless

variable {p : Participant}

theorem declarationLine (h : p.Breakless) :
    ∃ rest, p.declarationLine.toList = p.kind.keyword.toList ++ ' ' :: rest ∧ OneLine rest := by
  unfold Participant.declarationLine
  have has : OneLine " as ".toList := by decide
  cases hl : p.label with
  | none => exact ⟨p.id.toList, by simp, h.id⟩
  | some l =>
    dsimp only
    split
    · exact ⟨p.id.toList, by simp, h.id⟩
    · refine ⟨p.id.toList ++ (" as ".toList ++ l.toList), by simp, ?_⟩
      exact oneLine_append.2 ⟨h.id, oneLine_append.2 ⟨has, h.label l hl⟩⟩

theorem silent_declaration (h : p.Breakless) : Silent p.declarationLine := by
  obtain ⟨rest, hl, ho⟩ := h.declarationLine
  refine .of_words hl p.kind.keyword_solid p.kind.keyword_ne_nil ho ?_ ?_ <;> (cases p.kind <;> decide)

theorem silent_creation (h : p.Breakless) : Silent ("create " ++ p.declarationLine) := by
  obtain ⟨rest, hl, ho⟩ := h.declarationLine
  have hb : isLineBreak ' ' = false := rfl
  have hc : ("create " ++ p.declarationLine).toList = "create".toList ++ ' ' :: (p.kind.keyword.toList ++ ' ' :: rest) := by
    simp [hl]
  refine .of_words hc (by decide) (by decide) ?_ (by decide) (by decide)
  exact oneLine_append.2 ⟨p.kind.keyword_solid.oneLine, oneLine_cons.2 ⟨hb, ho⟩⟩

theorem silent_links (h : p.Breakless) : ∀ text ∈ p.linkLines, Silent text := by
  intro text ht
  obtain ⟨l, hl, rfl⟩ := List.mem_map.1 ht
  obtain ⟨hlabel, hurl⟩ := h.links l hl
  have hcolon : OneLine ": ".toList := by decide
  have hat : OneLine " @ ".toList := by decide
  have hc : (p.linkLine l).toList = "link".toList ++ ' ' ::
      (p.id.toList ++ (": ".toList ++ (l.label.text.toList ++ (" @ ".toList ++ l.url.text.toList)))) := by
    simp [linkLine, toString]
  refine .of_words hc (by decide) (by decide) ?_ (by decide) (by decide)
  simp only [oneLine_append]
  exact ⟨h.id, hcolon, hlabel, hat, hurl⟩

end Participant.Breakless

/-! ### Lines of brackets -/

/-- A line that says something and begins with a word. -/
structure Headed (word text : String) : Prop where
  oneLine : OneLine text.toList
  significant : isSignificant (trim text.toList) = true
  word : (splitWord (trimmed text).toList).1 = word.toList

namespace Headed

/-- A line of parts that begins with a word. -/
theorem of_parts {word : String} (hw : Solid word.toList) (h0 : word ≠ "") (hp : word.toList.head? ≠ some '%')
    {parts : List (Option String)} (h : ∀ s, some s ∈ parts → OneLine s.toList) :
    Headed word (joinParts (some word :: parts)) := by
  have hnil : word.toList ≠ [] := by simpa using h0
  obtain ⟨ho, hr⟩ := rest_joinParts h
  have hl := joinParts_toList h0 parts
  generalize (((parts.filterMap id).filter fun s => !s.isEmpty).flatMap fun s => ' ' :: s.toList) = rest at hl ho hr
  refine ⟨hl ▸ oneLine_append.2 ⟨hw.oneLine, ho⟩, ?_, ?_⟩
  · obtain ⟨more, hm⟩ := prefix_trim hw.tight hnil rest
    obtain ⟨c, cs, hc⟩ := List.exists_cons_of_ne_nil hnil
    rw [hl, ← hm]
    rw [hc] at hp ⊢
    exact isSignificant_of_head (by simp) (by simpa using hp)
  · rw [trimmed, String.toList_ofList, splitWord_trim, hl, splitWord_fst hw hnil hr]

theorem opening {b : Block} (hl : ∀ l ∈ b.label, OneLine l.toList) (hc : ∀ c ∈ b.color, OneLine c.toList) :
    Headed b.kind.keyword b.openingLine := by
  refine of_parts b.kind.keyword_solid b.kind.keyword_ne (by cases b.kind <;> decide) fun s hs => ?_
  have hs := (List.mem_singleton.1 hs).symm
  split at hs
  · exact hc s hs
  · exact hl s hs

theorem heading {b : Box} (hl : ∀ l ∈ b.label, OneLine l.toList) (hc : ∀ c ∈ b.color, OneLine c.toList) :
    Headed "box" b.headingLine := by
  have htransparent : OneLine Color.transparent.toList := by decide
  refine of_parts (by decide) (by decide) (by decide) fun s hs => ?_
  rcases List.mem_cons.1 hs with hs | hs
  · split at hs
    · rename_i color hcolor
      exact hc s (hcolor.trans hs.symm)
    · split at hs
      · obtain rfl := Option.some.inj hs
        exact htransparent
      · cases hs
  · exact hl s (List.mem_singleton.1 hs).symm

/-- A line that begins with the keyword of a kind opens a block of the kind. -/
theorem ofLine_block {kind : BlockKind} {text : String} (h : Headed kind.keyword text) :
    ∃ b : Block, b.kind = kind ∧ Statement.ofLine (trimmed text) = .ok (.blockStart { block := b }) := by
  have hkind : LineKind.ofLine (trimmed text) = .ok .blockStart := by
    simp only [LineKind.ofLine, h.word, BlockKind.ofWord_keyword]
  simp only [Statement.ofLine, hkind, Statement.ofKind, readBlockStart, h.word, String.ofList_toList,
    BlockKind.ofKeyword?_keyword]
  cases kind <;> exact ⟨_, rfl, rfl⟩

/-- A line that begins with the word for a box opens one. -/
theorem ofLine_box {text : String} (h : Headed "box" text) : ∃ x, Statement.ofLine (trimmed text) = .ok (.boxStart x) := by
  have hkind : LineKind.ofLine (trimmed text) = .ok .boxStart := by
    simp only [LineKind.ofLine, h.word]
    rfl
  refine ⟨Color.splitHeading (splitWord (trimmed text).toList).2, ?_⟩
  simp only [Statement.ofLine, hkind, Statement.ofKind, readBox]

end Headed

end Lifeline
