import Lifeline.Proofs.Notes
import Lifeline.Proofs.Payloads
import Lifeline.Proofs.Recovery
/-!
# What breaks a reading off

A lenient reading goes on after everything that it reports. Lines of two kinds break it off
instead: a note whose placement is spelled with a dotted capital or a dotless `i`, which
passes for a placement and is looked up in vain, and links with a whole number of too many
digits in their payload (`Statement.breaks_iff`). A source with a header and without such a
line is read (`reading_is_total`).
-/

namespace Lifeline

open Text Text.Pattern

/-- Whether a letter passes for an `i` and is not one in lower case. -/
def isOddI (c : Char) : Bool := c == '\u0130' || c == '\u0131'

/-- A line that breaks a reading off, and the error that it does it with. -/
inductive Breaks (line : List Char) : LineError → Prop where
  | note {word : List Char} (found : notePlacement? line = some word) (odd : word.any isOddI = true) :
    Breaks line (.unknownWord (String.ofList (lowerWord word)))
  | links {id payload : List Char} {digits : Nat} (found : linkedAll line = some (id, payload))
      (long : Json.read payload = .error (.tooLong digits)) : Breaks line (.tooManyDigits digits)

/-- The digits of a number that is too long stand in the payload. -/
theorem Breaks.holdsDigits {line : List Char} {digits : Nat} (h : Breaks line (.tooManyDigits digits)) :
    ∃ id payload, linkedAll line = some (id, payload) ∧ Json.HoldsDigits payload digits := by
  cases h with
  | links found long => exact ⟨_, _, found, Json.holdsDigits_of_read long⟩

/-! ## The placement of a note -/

theorem Text.Pattern.Passes.lowerWord_eq {letters word : List Char} (h : Passes letters word) (hs : 's' ∉ letters)
    (hodd : word.any isOddI = false) : lowerWord word = letters := by
  induction h with
  | nil => rfl
  | @cons letter c letters word hc h ih =>
    obtain ⟨hodd, hodds⟩ := Bool.or_eq_false_iff.1 (List.any_cons ▸ hodd)
    simp only [isOddI, Bool.or_eq_false_iff] at hodd
    have hletter : (letter == 's') = false := by simpa using fun he => hs (by simp [he])
    simp only [passesFor, hodd, hletter, Bool.or_false, Bool.and_false, Bool.false_and] at hc
    have := ih (fun hm => hs (List.mem_cons_of_mem letter hm)) hodds
    rw [← this, ← beq_iff_eq.1 hc]
    simp only [lowerWord, List.flatMap_cons, hodd.1, Bool.false_eq_true, if_false, List.singleton_append]

theorem placementOf_passes {placement : Placement} {word : List Char} (h : Passes placement.word.toList word)
    (hodd : word.any isOddI = false) : placementOf word = .ok placement := by
  rw [← placementOf_word placement]
  have hs : 's' ∉ placement.word.toList := by cases placement <;> decide
  have hlower : lowerWord placement.word.toList = placement.word.toList := by cases placement <;> decide
  simp only [placementOf, h.lowerWord_eq hs hodd, hlower]

theorem placementOf_odd {word : List Char} (hodd : word.any isOddI = true) :
    placementOf word = .error (.unknownWord (String.ofList (lowerWord word))) := by
  -- What an odd letter leaves in the lower case stands in the word of no placement.
  have hne (placement : Placement) : (String.ofList (lowerWord word) == placement.word) = false := by
    obtain ⟨c, hc, hodd⟩ := List.any_eq_true.1 hodd
    obtain ⟨d, hd, hplace⟩ : ∃ d ∈ lowerWord word, d ∉ placement.word.toList := by
      simp only [isOddI, Bool.or_eq_true, beq_iff_eq] at hodd
      rcases hodd with rfl | rfl
      · exact ⟨'\u0307', List.mem_flatMap.2 ⟨_, hc, by decide⟩, by cases placement <;> decide⟩
      · exact ⟨'\u0131', List.mem_flatMap.2 ⟨_, hc, by decide⟩, by cases placement <;> decide⟩
    rw [beq_eq_false_iff_ne]
    intro he
    rw [← he, String.toList_ofList] at hplace
    exact hplace hd
  have hover := hne .over
  have hleft := hne .left
  have hright := hne .right
  simp only [Placement.word] at hover hleft hright
  simp only [placementOf, hover, hleft, hright, Bool.false_eq_true, if_false]

theorem placementWord_blank {α : Type} (n : List Char → Matcher α) {c : Char} (hc : isBlank c = true) (cs : List Char) :
    placementWord n (c :: cs) = none := by
  cases h : placementWord n (c :: cs) with
  | none => rfl
  | some a =>
    obtain ⟨placement, word, rest, hword, hprefix, -⟩ := of_placementWord h
    have hhead := Placement.head?_word hword
    cases word with
    | nil => cases placement <;> cases hword
    | cons d word =>
      obtain rfl := (List.cons_prefix_cons.1 hprefix).1
      rw [List.head?_cons, Option.map_some, fold_of_isBlank hc] at hhead
      cases placement <;> (cases hhead; cases hc)

/-- What a line that begins like a note is read from. -/
theorem of_noteStart {α : Type} {n : List Char → Matcher α} {line : List Char} {a : α}
    (h : caseless "note".toList (fun _ => someBlanks (placementWord n)) line = some a) :
    ∃ placement word rest, Passes (Placement.word placement).toList word ∧ word <+: (line.drop 4).dropWhile isBlank ∧
      n word rest = some a := by
  obtain ⟨start, rest, rfl, hstart, h⟩ := of_caseless h
  have hl : start.length = 4 := hstart.length_eq.symm
  cases rest with
  | nil => cases h
  | cons c rest =>
    rw [someBlanks] at h
    split at h
    · rename_i hc
      -- No placement begins with a blank, so the blanks are taken as a whole.
      rw [blanks_eq fun c cs hc => placementWord_blank n hc cs] at h
      obtain ⟨placement, word, rest', hword, hprefix, -, h⟩ := of_placementWord h
      refine ⟨placement, word, rest', hword, ?_, h⟩
      rw [← hl, List.drop_left, List.dropWhile_cons_of_pos hc]
      exact hprefix
    · cases h

theorem of_notePlacement? {line word : List Char} (h : notePlacement? line = some word) :
    ∃ placement, Passes (Placement.word placement).toList word ∧ word <+: (line.drop 4).dropWhile isBlank := by
  obtain ⟨placement, word', rest, hword, hprefix, h⟩ := of_noteStart h
  obtain ⟨rest', -, h⟩ := of_someBlanks h
  split at h
  · exact ⟨placement, Option.some.inj h ▸ hword, Option.some.inj h ▸ hprefix⟩
  · cases h

/-- A note is read with the placement word that it was recognised by. -/
theorem word_of_noted {line word word' targets text : List Char} (hp : notePlacement? line = some word)
    (h : noted line = some (word', targets, text)) : word' = word := by
  obtain ⟨placement, hword, hprefix⟩ := of_notePlacement? hp
  obtain ⟨placement', word'', rest, hword', hprefix', h⟩ := of_noteStart h
  obtain ⟨rest', -, h⟩ := of_someBlanks h
  obtain ⟨found, -, he⟩ := Option.map_eq_some_iff.1 h
  obtain rfl : word'' = word' := congrArg Prod.fst he
  exact Placement.word_unique hword' hword hprefix' hprefix

/-! ## The kind of a line -/

namespace LineKind

theorem skip_error {c : Bool} {early : LineKind} {r : Except LineError LineKind} {e : LineError}
    (h : (if c then .ok early else r) = .error e) : r = .error e := by
  cases c with
  | true => cases h
  | false => exact h

/-- A line has a kind unless it begins like a note with a placement that is none. -/
theorem of_ofWord_error {line word rest : List Char} {e : LineError} (h : ofWord line word rest = .error e) :
    ∃ placement, notePlacement? line = some placement ∧ placementOf placement = .error e := by
  unfold ofWord at h
  have h := skip_error (skip_error (skip_error (skip_error (skip_error h))))
  split at h
  · split at h
    · cases h
    · rename_i placement hp
      refine ⟨placement, hp, ?_⟩
      cases hplace : placementOf placement with
      | error e' =>
        rw [hplace] at h
        exact congrArg Except.error (Except.error.inj h)
      | ok p =>
        rw [hplace] at h
        cases h
  · have h := skip_error (skip_error (skip_error (skip_error (skip_error (skip_error (skip_error h))))))
    cases h

/-- A line that begins like a note on something is a note, if its placement is one. -/
theorem ofLine_note {line : String} {word : List Char} (h : notePlacement? line.toList = some word) :
    ofLine line = (placementOf word).map ofPlacement := by
  obtain ⟨start, rest, hline, hstart, hrest⟩ := of_caseless h
  have hfold := hstart.foldWord_eq (by decide) (by decide)
  have hsolid : Solid start := hstart.solid (by decide)
  have h0 : start ≠ [] := by
    rintro rfl
    cases hstart
  cases rest with
  | nil => cases hrest
  | cons c rest =>
    have hc : isBlank c = true := by
      cases hc : isBlank c with
      | true => rfl
      | false =>
        rw [someBlanks, hc] at hrest
        cases hrest
    -- The first word passes for `note`, so it is none of the keywords that are tried before.
    have hother {keyword : String} (hk : foldWord keyword.toList ≠ "note".toList) :
        (String.ofList start == keyword) = false := by
      rw [beq_eq_false_iff_ne]
      rintro rfl
      exact hk (by rw [String.toList_ofList, hfold])
    have hdeclares : declares (String.ofList start) = false := by
      have hparticipant := @hother "participant" (by decide)
      have hactor := @hother "actor" (by decide)
      simp only [declares, ParticipantKind.ofKeyword?, hparticipant, hactor]
      rfl
    have hheader := @hother headerWord (by decide)
    have hautonumber := @hother autonumberWord (by decide)
    have hcreate := @hother "create" (by decide)
    have hdestroy := @hother "destroy" (by decide)
    simp only [ofLine, hline, splitWord_eq hsolid h0 hc]
    rw [hline] at h
    simp only [ofWord, hheader, hautonumber, hdeclares, hcreate, hdestroy, hfold, h, Bool.false_and, Bool.false_eq_true,
      if_false, beq_self_eq_true, if_true]

/-- A line that attaches several links is no line of a single link, and is a line of links. -/
theorem ofLine_links {line : String} {id payload : List Char} (h : linkedAll line.toList = some (id, payload)) :
    ofLine line = .ok .link ∧ linked line.toList = none := by
  obtain ⟨rest, hline, hrest⟩ := of_literal h
  cases rest with
  | nil => cases hrest
  | cons c rest =>
    rw [someBlanks] at hrest
    split at hrest
    · rename_i hc
      obtain ⟨rest1, hs1, hid⟩ := of_blanks hrest
      obtain ⟨rest2, rfl, hblanks⟩ := of_someShortest hid
      obtain ⟨rest3, hs3, hliteral⟩ := of_blanks hblanks
      obtain ⟨rest4, rfl, -⟩ := of_literal hliteral
      have hcolon : ':' ∈ trim (c :: rest) := by
        refine mem_trim (List.mem_cons_of_mem c (hs1.subset ?_)) rfl
        exact List.mem_append_right id (hs3.subset List.mem_cons_self)
      constructor
      · simp only [ofLine, hline, splitWord_eq (show Solid "links".toList by decide) (by decide) hc]
        have hcontains : (trim (c :: rest)).contains ':' = true := by simpa using hcolon
        unfold ofWord
        rw [hcontains]
        rfl
      · rw [hline]
        rfl
    · cases hrest

end LineKind

/-! ## Readers that report -/

/-- A reading that fails only over the form of its line. -/
def Polite {α : Type} (r : Reading α) : Prop := ∀ e, r = .error e → e.isSyntax = true

namespace Polite

variable {α β : Type} {r : Reading α}

theorem ok (x : α) : Polite (.ok x) := nofun

theorem error {e : LineError} (h : e.isSyntax = true) : Polite (.error e : Reading α) := fun _ he =>
  Except.error.inj he ▸ h

theorem map (h : Polite r) (f : α → β) : Polite (r.map f) := fun e he => by
  cases r with
  | error e' => exact h e (congrArg Except.error (Except.error.inj he))
  | ok x => cases he

end Polite

theorem readId_polite (line cs : List Char) : Polite (readId line cs) := by
  unfold readId
  dsimp only
  split
  · exact .error rfl
  · split
    · exact .error rfl
    · exact .ok _

theorem readIds_polite (line : List Char) (pieces : List (List Char)) : Polite (readIds line pieces) := by
  induction pieces with
  | nil => exact .ok _
  | cons piece pieces ih =>
    unfold readIds
    split
    · rename_i e he
      exact .error (readId_polite line piece e he)
    · exact ih.map _

theorem readDeclaration_polite (line : List Char) : Polite (readDeclaration line) := by
  unfold readDeclaration
  split
  · exact .error rfl
  · exact (readId_polite line _).map _

theorem readEndpoint_polite (line : List Char) (marked : List Char × Bool × Bool) : Polite (readEndpoint line marked) :=
  (readId_polite line marked.1).map _

theorem readMessage_polite (line : List Char) : Polite (readMessage line) := by
  unfold readMessage
  dsimp only
  split
  · exact .error rfl
  · split
    · rename_i e he
      exact .error (readEndpoint_polite line _ e he)
    · exact (readEndpoint_polite line _).map _

/-- A note with a placement is read or reported. -/
theorem readNote_polite {line word : List Char} {placement : Placement} (hword : notePlacement? line = some word)
    (hplace : placementOf word = .ok placement) : Polite (readNote line) := by
  unfold readNote
  split
  · exact .error rfl
  · rename_i word' targets text hnoted
    rw [word_of_noted hword hnoted, hplace]
    exact (readIds_polite line _).map _

theorem readBlockStart_polite {line : List Char}
    (h : (BlockKind.ofKeyword? (String.ofList (splitWord line).1)).isSome = true) : Polite (readBlockStart line) := by
  unfold readBlockStart
  dsimp only
  split
  · rename_i hnone
    rw [hnone] at h
    cases h
  · exact .ok _
  · exact .ok _

/-- Links are read or reported, or a number in their payload is too long. -/
theorem readLink_breaks {line : List Char} {e : LineError} (h : readLink line = .error e) (he : e.isSyntax = false) :
    Breaks line e := by
  have hpolite {r : Reading Statement} (hr : Polite r) (h : r = .error e) : Breaks line e :=
    absurd he (by rw [hr e h]; exact nofun)
  unfold readLink at h
  split at h
  · exact hpolite ((readId_polite line _).map _) h
  · split at h
    · exact hpolite (.error rfl) h
    · rename_i id payload hlinks
      split at h
      · rename_i e' hpayload
        obtain rfl := Except.error.inj h
        unfold readPayload at hpayload
        split at hpayload
        · cases hpayload
          cases he
        · rename_i digits hread
          cases hpayload
          exact .links hlinks hread
        · cases hpayload
        · cases hpayload
          cases he
      · exact hpolite ((readId_polite line _).map _) h

/-- A line without a kind breaks a reading off. -/
theorem LineKind.breaks_of_error {line : String} {e : LineError} (h : LineKind.ofLine line = .error e) :
    Breaks line.toList e := by
  obtain ⟨word, hword, hplace⟩ := LineKind.of_ofWord_error h
  obtain ⟨placement, hpasses, -⟩ := of_notePlacement? hword
  cases hodd : word.any isOddI with
  | true =>
    rw [placementOf_odd hodd] at hplace
    exact Except.error.inj hplace ▸ .note hword hodd
  | false =>
    rw [placementOf_passes hpasses hodd] at hplace
    cases hplace

/-- The lines that break a reading off are the notes with an odd placement and the links with
a number that is too long. -/
theorem Statement.breaks_iff {line : String} {e : LineError} :
    Statement.ofLine line = .error e ∧ e.isSyntax = false ↔ Breaks line.toList e := by
  constructor
  · rintro ⟨h, he⟩
    unfold Statement.ofLine at h
    split at h
    · rename_i e' hkind
      exact Except.error.inj h ▸ LineKind.breaks_of_error hkind
    · rename_i kind hkind
      have hholds := LineKind.holds_of_ofWord hkind
      have hpolite {r : Reading Statement} (hr : Polite r) (h : r = .error e) : Breaks line.toList e :=
        absurd he (by rw [hr e h]; exact nofun)
      cases kind with
      | header | unknown => exact hpolite (.error rfl) h
      | autonumber | boxStart | branch | close => cases h
      | participant => exact hpolite (readDeclaration_polite _) h
      | destroy => exact hpolite ((readId_polite _ _).map _) h
      | activation => exact hpolite ((readId_polite _ _).map _) h
      | message => exact hpolite (readMessage_polite _) h
      | blockStart => exact hpolite (readBlockStart_polite hholds) h
      | link => exact readLink_breaks h he
      | noteLeft | noteRight | noteOver =>
        obtain ⟨word, placement, hword, hplace⟩ := hholds
        exact hpolite (readNote_polite hword hplace) h
  · intro h
    cases h with
    | note hword hodd =>
      refine ⟨?_, rfl⟩
      rw [Statement.ofLine, LineKind.ofLine_note hword, placementOf_odd hodd]
      rfl
    | links hlinks hlong =>
      refine ⟨?_, rfl⟩
      obtain ⟨hkind, hlinked⟩ := LineKind.ofLine_links hlinks
      simp only [Statement.ofLine, hkind, Statement.ofKind, readLink, hlinked, hlinks, readPayload, hlong]

/-! ## Lenient readings -/

/-- Whether no line breaks a reading off. -/
def Unbroken (lines : List SourceLine) : Prop := ∀ line ∈ lines, ∀ e, ¬Breaks line.text.toList e

theorem unbroken_or_first (lines : List SourceLine) : Unbroken lines ∨ ∃ before line after e,
    lines = before ++ line :: after ∧ Unbroken before ∧ Breaks line.text.toList e := by
  induction lines with
  | nil => exact .inl nofun
  | cons line lines ih =>
    by_cases h : ∃ e, Breaks line.text.toList e
    · obtain ⟨e, he⟩ := h
      exact .inr ⟨[], line, lines, e, rfl, nofun, he⟩
    · rw [not_exists] at h
      rcases ih with hnone | ⟨before, line', after, e, rfl, hbefore, he⟩
      · exact .inl (List.forall_mem_cons.2 ⟨h, hnone⟩)
      · exact .inr ⟨line :: before, line', after, e, rfl, List.forall_mem_cons.2 ⟨h, hbefore⟩, he⟩

namespace Session

theorem readLine_unbroken {line : SourceLine} (h : ∀ e, ¬Breaks line.text.toList e) (s : Session) :
    (s.readLine false line).2 = none := by
  obtain ⟨fate, hfits, hfate⟩ := readLine_fate s.draft line
  rw [hfate s false rfl]
  cases fate with
  | taken | reported => rfl
  | broken e => exact absurd (Statement.breaks_iff.1 hfits) (h e)

theorem readLine_broken {line : SourceLine} {e : LineError} (h : Breaks line.text.toList e) (s : Session) (strict : Bool) :
    s.readLine strict line = (s, some (.line e)) := by
  obtain ⟨hline, he⟩ := Statement.breaks_iff.2 h
  simp only [readLine, hline, he, Bool.false_eq_true, if_false]

theorem readLines_unbroken {lines : List SourceLine} (h : Unbroken lines) (s : Session) :
    (s.readLines false lines).2 = none := by
  induction lines generalizing s with
  | nil => rfl
  | cons line lines ih =>
    obtain ⟨hline, hlines⟩ := List.forall_mem_cons.1 h
    rw [readLines, andThen_of_none (readLine_unbroken hline s)]
    exact ih hlines _

theorem readLines_broken {before after : List SourceLine} {line : SourceLine} {e : LineError} (hbefore : Unbroken before)
    (he : Breaks line.text.toList e) (s : Session) :
    (s.readLines false (before ++ line :: after)).2 = some (.line e) := by
  induction before generalizing s with
  | nil =>
    rw [List.nil_append, readLines, readLine_broken he]
    rfl
  | cons line' before ih =>
    obtain ⟨hline, hlines⟩ := List.forall_mem_cons.1 hbefore
    rw [List.cons_append, readLines, andThen_of_none (readLine_unbroken hline s)]
    exact ih hlines _

end Session

/-- Whether an error says that a source has no header. -/
def ReadError.missesHeader : ReadError → Bool
  | .emptySource => true
  | .missingHeader _ => true
  | _ => false

/-- A source without a header. -/
theorem Diagram.read_without_header {source : String} (h : DiagramKind.ofSource source = .ok none) :
    ∃ e, Diagram.read source false = .error e ∧ e.missesHeader = true := by
  unfold DiagramKind.ofSource at h
  unfold Diagram.read transcribe
  cases hlines : significantLines source with
  | nil => exact ⟨.emptySource, rfl, rfl⟩
  | cons first rest =>
    rw [hlines] at h
    dsimp only at h ⊢
    cases hkind : LineKind.ofLine first.text with
    | error e =>
      rw [hkind] at h
      cases h
    | ok kind =>
      rw [hkind] at h
      cases kind with
      | header => cases h
      | _ => exact ⟨.missingHeader first, rfl, rfl⟩

/-- A source with a header, or with a first line that breaks the reading off. -/
theorem Diagram.read_with_header {source : String} (h : DiagramKind.ofSource source ≠ .ok none) :
    (Unbroken (significantLines source) ∧ ∃ m, Diagram.read source false = .ok m) ∨
      ∃ line ∈ significantLines source, ∃ e, Breaks line.text.toList e ∧
        Diagram.read source false = .error (.line e) := by
  unfold DiagramKind.ofSource at h
  cases hlines : significantLines source with
  | nil => simp [hlines] at h
  | cons first rest =>
    rw [hlines] at h
    cases hkind : LineKind.ofLine first.text with
    | error e =>
      refine .inr ⟨first, List.mem_cons_self, e, LineKind.breaks_of_error hkind, ?_⟩
      simp only [Diagram.read, transcribe, hlines, hkind]
    | ok kind =>
      have hheader : kind = .header := by
        by_contra hne
        simp [hkind, hne, Except.map] at h
      subst hheader
      have hread := Diagram.read_body hlines hkind false
      -- Either every line after the header is read or reported, or a first one breaks off.
      rcases unbroken_or_first rest with hrest | ⟨before, line, after, e, rfl, hbefore, he⟩
      · have hfirst : ∀ e, ¬Breaks first.text.toList e := fun e he => by
          obtain ⟨hline, he⟩ := Statement.breaks_iff.2 he
          simp only [Statement.ofLine, hkind, Statement.ofKind] at hline
          rw [← Except.error.inj hline] at he
          cases he
        refine .inl ⟨List.forall_mem_cons.2 ⟨hfirst, hrest⟩, ?_⟩
        -- What is left open is reported, which does not break a lenient reading off.
        have hgoes := (Session.reportOpen_goes (s := (({} : Session).readLines false rest).1)
          (({} : Session).readLines false rest).1.draft.frames.reverse).1
        rw [Session.readBody, Session.andThen_of_none (Session.readLines_unbroken hrest {})] at hread
        split at hread
        · exact ⟨_, hread⟩
        · rename_i hstep
          rw [hstep] at hgoes
          cases hgoes
      · refine .inr ⟨line, by simp, e, he, Diagram.read_of_broken hlines hkind ?_⟩
        rw [Session.readBody, Session.andThen_of_some (Session.readLines_broken hbefore he {})]
        exact Session.readLines_broken hbefore he {}

/-- A lenient reading misses the header exactly where the source has no kind; it gives a
diagram exactly where the source has one or breaks off, and no line breaks off; and any other
error is that of a line that breaks off. If the error counts digits, the payload of the line's
links holds a whole number of that many. -/
theorem reading_is_total (source : String) :
    ((∃ e, Diagram.read source false = .error e ∧ e.missesHeader = true) ↔ DiagramKind.ofSource source = .ok none) ∧
    ((∃ m, Diagram.read source false = .ok m) ↔
      DiagramKind.ofSource source ≠ .ok none ∧ Unbroken (significantLines source)) ∧
    ∀ e, Diagram.read source false = .error e → e.missesHeader = true ∨
      ∃ line ∈ significantLines source, ∃ e', Breaks line.text.toList e' ∧ e = .line e' ∧
        ∀ digits, e' = .tooManyDigits digits → ∃ id payload,
          linkedAll line.text.toList = some (id, payload) ∧ Json.HoldsDigits payload digits := by
  by_cases h : DiagramKind.ofSource source = .ok none
  · obtain ⟨e, hread, he⟩ := Diagram.read_without_header h
    simp only [hread]
    refine ⟨⟨fun _ => h, fun _ => ⟨e, rfl, he⟩⟩, ⟨nofun, fun hall => absurd h hall.1⟩, ?_⟩
    rintro _ ⟨⟩
    exact .inl he
  · rcases Diagram.read_with_header h with ⟨hunbroken, m, hread⟩ | ⟨line, hline, e, hbreaks, hread⟩
    · simp only [hread]
      refine ⟨by simp [h], ⟨fun _ => ⟨h, hunbroken⟩, fun _ => ⟨m, rfl⟩⟩, nofun⟩
    · simp only [hread]
      refine ⟨⟨?_, fun hnone => absurd hnone h⟩, ⟨nofun, fun hall => absurd hbreaks (hall.2 line hline e)⟩, ?_⟩
      · rintro ⟨_, ⟨⟩, he⟩
        cases he
      · rintro _ ⟨⟩
        exact .inr ⟨line, hline, e, hbreaks, rfl, fun digits he => (he ▸ hbreaks).holdsDigits⟩

/-- A dotless letter in the placement of a note breaks off the reading of a source with a header. -/
theorem dotless_note_breaks : DiagramKind.ofSource "sequenceDiagram\nnote r\u0131ght of A: x\n" = .ok (some .sequence) ∧
    Diagram.read "sequenceDiagram\nnote r\u0131ght of A: x\n" false = .error (.line (.unknownWord "r\u0131ght")) :=
  ⟨rfl, rfl⟩

end Lifeline
