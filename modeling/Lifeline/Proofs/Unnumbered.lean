import Lifeline.Document.Format
import Lifeline.Proofs.Recovery
import Lifeline.Proofs.Views
/-!
# Line numbers and indentation

A reading remembers the numbers of lines, but what it does depends on their texts alone: two
sources that say the same are read alike except for the numbers (`read_unnumbered`). How far
the lines of a written text are indented is forgotten altogether, whatever stands in them, so
texts of one diagram in two indents are read as the same (`layout_is_forgotten`).
-/

namespace Lifeline

open Text

/-! ## What is left without line numbers -/

/-- A frame that has forgotten its line. -/
def Frame.unnumbered {α : Type} (f : Frame α) : Frame α := { f with line := none }

/-- A draft whose frames have forgotten their lines. -/
def Draft.unnumbered (d : Draft) : Draft := { d with frames := d.frames.map Frame.unnumbered }

/-- An attempt whose draft has forgotten its lines. -/
def Attempt.unnumbered {α : Type} (a : Attempt α) : Attempt α := { a with draft := a.draft.unnumbered }

/-- A report without the number of its line. -/
def Diagnostic.unnumbered (x : Diagnostic) : Diagnostic := { x with line := 0 }

/-- An error without the numbers of lines. -/
def ReadError.unnumbered : ReadError → ReadError
  | .missingHeader first => .missingHeader { first with number := 0 }
  | .stopped cause diagnostics => .stopped cause.unnumbered (diagnostics.map Diagnostic.unnumbered)
  | e => e

/-- A diagram whose reports have no line numbers. -/
def Diagram.unnumbered (m : Diagram) : Diagram := { m with diagnostics := m.diagnostics.map Diagnostic.unnumbered }

/-- A session without line numbers and without its journal. -/
def Session.unnumbered (s : Session) : Session :=
  { draft := s.draft.unnumbered, diagnostics := s.diagnostics.map Diagnostic.unnumbered }

/-- A step without line numbers. -/
def Step.unnumbered (step : Step) : Step := (step.1.unnumbered, step.2.map ReadError.unnumbered)

/-! ## Operations do not look at line numbers -/

/-- The view that overlooks the lines of frames. -/
def View.unnumbered : View where
  item := id
  tree := id
  frame := Frame.unnumbered
  item_other _ := rfl
  item_start s := ⟨s, rfl⟩
  item_again _ := rfl
  tree_change _ _ := rfl
  frame_region _ := rfl
  frame_content _ := rfl
  frame_again _ := rfl

namespace Draft

variable {d d' : Draft}

theorem view_unnumbered (d : Draft) : View.unnumbered.draft d = d.unnumbered := by
  simp [View.draft, View.unnumbered, unnumbered]

/-- A statement does the same from whatever line it was read. -/
theorem feed_unnumbered (h : d.unnumbered = d'.unnumbered) (x : Statement) (line line' : Option Int) :
    (d.feed x line).unnumbered = (d'.feed x line').unnumbered := by
  have hline : (d.feed x line).unnumbered = (d.feed x line').unnumbered := by cases x <;> rfl
  have hb : ∀ start, d.unnumbered.branchCount start = d'.unnumbered.branchCount start := fun start => by rw [h]
  rw [← view_unnumbered, ← view_unnumbered] at h
  have hfeed := View.unnumbered.feed_congr h (fun _ frame _ => hb frame.content) x line'
  simp only [View.attempt, view_unnumbered] at hfeed
  exact hline.trans hfeed

theorem extendLabel_forgets (d : Draft) (text : String) :
    d.unnumbered.extendLabel text = ((d.extendLabel text).1.unnumbered, (d.extendLabel text).2) := by
  have hblock : d.unnumbered.frames.block? = d.frames.block?.map Frame.unnumbered := View.unnumbered.block?_map d.frames
  unfold extendLabel
  rw [hblock]
  cases d.frames.block? <;> rfl

theorem extendLabel_unnumbered (h : d.unnumbered = d'.unnumbered) (text : String) :
    (d.extendLabel text).1.unnumbered = (d'.extendLabel text).1.unnumbered ∧ (d.extendLabel text).2 = (d'.extendLabel text).2 := by
  have hextend := congrArg (extendLabel · text) h
  simp only [extendLabel_forgets] at hextend
  exact Prod.mk.inj hextend

end Draft

/-! ## Readings do not look at line numbers -/

namespace Session

variable {s s' : Session}

/-- Sessions that are the same but for line numbers go on to steps that are. -/
theorem andThen_unnumbered {step step' : Step} (h : Step.unnumbered step = Step.unnumbered step')
    {next next' : Session → Step}
    (hn : ∀ s s', s.unnumbered = s'.unnumbered → Step.unnumbered (next s) = Step.unnumbered (next' s')) :
    Step.unnumbered (andThen step next) = Step.unnumbered (andThen step' next') := by
  obtain ⟨s, e⟩ := step
  obtain ⟨s', e'⟩ := step'
  obtain ⟨hs, he⟩ := Prod.mk.inj h
  cases e with
  | none =>
    cases e' with
    | none => exact hn s s' hs
    | some e' => cases he
  | some e =>
    cases e' with
    | none => cases he
    | some e' => exact h

theorem report_unnumbered (h : s.unnumbered = s'.unnumbered) (strict : Bool) {x x' : Diagnostic}
    (hx : x.unnumbered = x'.unnumbered) :
    Step.unnumbered (s.report strict x) = Step.unnumbered (s'.report strict x') := by
  obtain ⟨hd, ht⟩ : s.draft.unnumbered = s'.draft.unnumbered ∧
      s.diagnostics.map Diagnostic.unnumbered = s'.diagnostics.map Diagnostic.unnumbered := by
    simpa [unnumbered] using h
  cases strict <;> simp [report, Step.unnumbered, unnumbered, ReadError.unnumbered, hd, ht, hx]

theorem feed_unnumbered (h : s.unnumbered = s'.unnumbered) (strict : Bool) {line line' : SourceLine}
    (hl : line.text = line'.text) (x : Statement) :
    Step.unnumbered (s.feed strict line x) = Step.unnumbered (s'.feed strict line' x) := by
  have hd : s.draft.unnumbered = s'.draft.unnumbered := congrArg draft h
  have ht : s.diagnostics.map Diagnostic.unnumbered = s'.diagnostics.map Diagnostic.unnumbered := congrArg diagnostics h
  have ha : (s.draft.feed x (some line.number)).unnumbered = (s'.draft.feed x (some line'.number)).unnumbered :=
    Draft.feed_unnumbered hd x _ _
  generalize hattempt : s.draft.feed x (some (line.number : Int)) = a at ha
  generalize hattempt' : s'.draft.feed x (some (line'.number : Int)) = a' at ha
  obtain ⟨d, result⟩ := a
  obtain ⟨d', result'⟩ := a'
  obtain ⟨hdraft, rfl⟩ : d.unnumbered = d'.unnumbered ∧ result = result' := by simpa [Attempt.unnumbered] using ha
  have hs : (s.advance d).unnumbered = (s'.advance d').unnumbered := by simp [advance, unnumbered, hdraft, ht]
  simp only [feed, hattempt, hattempt', hl]
  obtain ⟨hgrown, hkept⟩ := Draft.extendLabel_unnumbered hdraft line'.text
  cases result with
  | ok a => simp [Step.unnumbered, hs]
  | error e =>
    cases e with
    | emptyId | invalid => simp [Step.unnumbered, hs]
    | frame f =>
      cases f with
      | notABranch keyword => simp [Step.unnumbered, hs]
      | nothingOpen => exact report_unnumbered hs strict rfl
      | _ =>
        refine report_unnumbered ?_ strict ?_
        · simpa [unnumbered, advance, ht] using hgrown
        · simp only [advance, hkept]
          rfl

theorem readLine_unnumbered (h : s.unnumbered = s'.unnumbered) (strict : Bool) {line line' : SourceLine}
    (hl : line.text = line'.text) :
    Step.unnumbered (s.readLine strict line) = Step.unnumbered (s'.readLine strict line') := by
  simp only [readLine, hl]
  cases Statement.ofLine line'.text with
  | ok x => exact feed_unnumbered h strict hl x
  | error e =>
    dsimp only
    split
    · exact report_unnumbered h strict rfl
    · simp [Step.unnumbered, h]

theorem readLines_unnumbered (h : s.unnumbered = s'.unnumbered) (strict : Bool) {lines lines' : List SourceLine}
    (hl : lines.map SourceLine.text = lines'.map SourceLine.text) :
    Step.unnumbered (s.readLines strict lines) = Step.unnumbered (s'.readLines strict lines') := by
  induction lines generalizing s s' lines' with
  | nil =>
    obtain rfl : lines' = [] := by simpa using hl.symm
    simp [readLines, Step.unnumbered, h]
  | cons line lines ih =>
    obtain ⟨line', lines', rfl, hline, hlines⟩ := List.map_eq_cons_iff.1 hl.symm
    exact andThen_unnumbered (readLine_unnumbered h strict hline.symm) fun s s' hs => ih hs hlines.symm

theorem reportOpen_unnumbered (h : s.unnumbered = s'.unnumbered) (strict : Bool) {frames frames' : Frames Nat}
    (hf : frames.map Frame.unnumbered = frames'.map Frame.unnumbered) :
    Step.unnumbered (s.reportOpen strict frames) = Step.unnumbered (s'.reportOpen strict frames') := by
  induction frames generalizing s s' frames' with
  | nil =>
    obtain rfl : frames' = [] := by simpa using hf.symm
    simp [reportOpen, Step.unnumbered, h]
  | cons frame frames ih =>
    obtain ⟨frame', frames', rfl, hframe, hframes⟩ := List.map_eq_cons_iff.1 hf.symm
    have hregion : frame.region = frame'.region := (congrArg Frame.region hframe).symm
    refine andThen_unnumbered (report_unnumbered h strict ?_) fun s s' hs => ih hs hframes.symm
    simp [unclosed, Diagnostic.unnumbered, hregion]

theorem readBody_unnumbered (strict : Bool) {lines lines' : List SourceLine}
    (hl : lines.map SourceLine.text = lines'.map SourceLine.text) :
    Step.unnumbered (readBody strict lines) = Step.unnumbered (readBody strict lines') := by
  refine andThen_unnumbered (readLines_unnumbered rfl strict hl) fun s s' hs => ?_
  have hframes : s.draft.frames.map Frame.unnumbered = s'.draft.frames.map Frame.unnumbered :=
    congrArg (fun s => s.draft.frames) hs
  exact reportOpen_unnumbered hs strict (by simp [List.map_reverse, hframes])

/-- A diagram holds the numbers of lines in its reports only. -/
theorem finish_unnumbered (h : s.unnumbered = s'.unnumbered) : s.finish.2.unnumbered = s'.finish.2.unnumbered := by
  have hbuild : s.draft.unnumbered.build = s'.draft.unnumbered.build := congrArg (fun s => s.draft.build) h
  have ht : s.diagnostics.map Diagnostic.unnumbered = s'.diagnostics.map Diagnostic.unnumbered := congrArg diagnostics h
  have hbuild : s.draft.build = s'.draft.build := hbuild
  simp only [finish, Diagram.unnumbered, ht, hbuild]

end Session

/-- What a reading comes to without line numbers. -/
def unnumberedResult (result : Except ReadError Diagram) : Except ReadError Diagram :=
  (result.map Diagram.unnumbered).mapError ReadError.unnumbered

/-- Two sources that say the same are read alike except for line numbers. -/
theorem read_unnumbered {source source' : String}
    (h : (significantLines source).map SourceLine.text = (significantLines source').map SourceLine.text)
    (strict : Bool) : unnumberedResult (Diagram.read source strict) = unnumberedResult (Diagram.read source' strict) := by
  cases hlines : significantLines source with
  | nil =>
    have hlines' : significantLines source' = [] := by simpa [hlines] using h.symm
    simp [Diagram.read, transcribe, hlines, hlines']
  | cons first rest =>
    rw [hlines] at h
    obtain ⟨first', rest', hlines', hfirst, hrest⟩ := List.map_eq_cons_iff.1 h.symm
    simp only [Diagram.read, transcribe, hlines, hlines', hfirst]
    cases LineKind.ofLine first.text with
    | error e => rfl
    | ok kind =>
      cases kind with
      | header =>
        have hbody := Session.readBody_unnumbered strict hrest.symm
        simp only [transcribeBody, ← Session.readBody.eq_1]
        generalize Session.readBody strict rest = step at hbody
        generalize Session.readBody strict rest' = step' at hbody
        obtain ⟨s, e⟩ := step
        obtain ⟨s', e'⟩ := step'
        obtain ⟨hs, he⟩ := Prod.mk.inj hbody
        cases e with
        | none =>
          cases e' with
          | none => exact congrArg Except.ok (Session.finish_unnumbered hs)
          | some e' => cases he
        | some e =>
          cases e' with
          | none => cases he
          | some e' => exact congrArg Except.error (Option.some.inj he)
      | _ =>
        have hsame : ({ first' with number := 0 } : SourceLine) = { first with number := 0 } := by rw [hfirst]
        exact congrArg (fun line => Except.error (ReadError.missingHeader line)) hsame.symm

/-! ## Indentation -/

namespace Text

/-- A character that is no line break begins the first line. -/
theorem splitLines_cons {c : Char} (hc : isLineBreak c = false) (cs : List Char) :
    splitLines (c :: cs) = (c :: (splitLines cs).headD []) :: (splitLines cs).tail := by
  have hne : ∀ cs', c = '\r' → cs = '\n' :: cs' → False := by
    rintro _ rfl
    cases hc
  rw [splitLines.eq_3 _ _ hne, if_neg (by simp [hc])]
  cases splitLines cs <;> rfl

theorem splitLines_ne_nil {cs : List Char} (h : cs ≠ []) : splitLines cs ≠ [] := by
  induction cs using splitLines.induct with
  | case1 => exact absurd rfl h
  | case2 cs => simp [splitLines]
  | case3 c cs hne hc => simp [splitLines.eq_3 _ _ hne, hc]
  | _ c cs hne hc => simp [splitLines_cons (eq_false_of_ne_true hc)]

/-- A newline is the end of a line whatever stands before it. -/
theorem splitLines_newline (xs rest : List Char) :
    splitLines (xs ++ '\n' :: rest) = splitLines (xs ++ ['\n']) ++ splitLines rest := by
  have hn : isLineBreak '\n' = true := rfl
  induction xs using splitLines.induct with
  | case1 => simp [splitLines, hn]
  | case2 cs ih => simp [splitLines, ih]
  | case3 c cs hne hc ih =>
    -- a carriage return at the very end is one break with the newline
    by_cases hcr : c = '\r' ∧ cs = []
    · obtain ⟨rfl, rfl⟩ := hcr
      simp [splitLines]
    · have hne' : ∀ ys cs', c = '\r' → cs ++ '\n' :: ys = '\n' :: cs' → False := by
        rintro ys cs' rfl he
        cases cs with
        | nil => exact hcr ⟨rfl, rfl⟩
        | cons x xs =>
          obtain ⟨rfl, -⟩ := List.cons.inj he
          exact hne xs rfl rfl
      rw [List.cons_append, List.cons_append, splitLines.eq_3 _ _ (hne' rest), splitLines.eq_3 _ _ (hne' []), if_pos hc,
        if_pos hc, ih, List.cons_append]
  | case4 c cs hne hc _ ih | case5 c cs hne hc _ _ _ ih =>
    have hc := eq_false_of_ne_true hc
    have hsome : splitLines (cs ++ ['\n']) ≠ [] := splitLines_ne_nil (by simp)
    obtain ⟨line, lines, hl⟩ := List.exists_cons_of_ne_nil hsome
    rw [hl] at ih
    simp [splitLines_cons hc, hl, ih]

/-- A blank that is no line break is trimmed away at the start of a line. -/
theorem trim_splitLines_cons {c : Char} {cs : List Char} (hb : isBlank c = true) (hl : isLineBreak c = false)
    (h : cs ≠ []) : (splitLines (c :: cs)).map trim = (splitLines cs).map trim := by
  rw [splitLines_cons hl]
  cases hs : splitLines cs with
  | nil => exact absurd hs (splitLines_ne_nil h)
  | cons line lines => simp [trim_cons_blank hb]

end Text

/-- The trimmed lines of a text do not depend on the indentation of its lines. -/
theorem trim_splitLines_textOf (layout : Layout) (lines : List Line) :
    (splitLines (Diagram.textOf layout lines).toList).map trim =
      lines.flatMap fun l => (splitLines (l.text.toList ++ ['\n'])).map trim := by
  rw [textOf_toList]
  induction lines with
  | nil => rfl
  | cons l lines ih =>
    have hpad : ∀ n, (splitLines (List.replicate n ' ' ++ l.text.toList ++ ['\n'])).map trim =
        (splitLines (l.text.toList ++ ['\n'])).map trim := by
      intro n
      induction n with
      | zero => rfl
      | succ n ihn =>
        rw [List.replicate_succ, List.cons_append, List.cons_append, trim_splitLines_cons rfl rfl (by simp), ihn]
    rw [List.map_cons, List.flatMap_cons, List.flatMap_cons, List.append_assoc _ ['\n'], List.singleton_append,
      splitLines_newline, List.map_append, hpad, ih]

/-- The lines of a source that say something, by its trimmed lines. -/
theorem significantLines_eq (source : String) : significantLines source =
    (((splitLines source.toList).map trim).zipIdx 1).filterMap fun (line, number) =>
      if isSignificant line then some ⟨number, String.ofList line⟩ else none := by
  rw [significantLines, List.zipIdx_map, List.filterMap_map]
  rfl

/-- A plain line is read from a written text, whatever the other lines are. -/
theorem mem_significantLines_textOf (layout : Layout) {lines : List Line} {l : Line} (hl : l ∈ lines)
    (hp : Plain l.text.toList) : ∃ n, ⟨n, l.text⟩ ∈ significantLines (Diagram.textOf layout lines) := by
  have hline : l.text.toList ∈ (splitLines (Diagram.textOf layout lines).toList).map trim := by
    rw [trim_splitLines_textOf, List.mem_flatMap]
    refine ⟨l, hl, ?_⟩
    rw [splitLines_append hp.oneLine]
    simp [splitLines, hp.tight.trim_eq]
  rw [← List.zipIdx_map_fst 1 (List.map trim _)] at hline
  obtain ⟨⟨line, n⟩, hn, heq⟩ := List.mem_map.1 hline
  dsimp only at heq
  refine ⟨n, ?_⟩
  rw [significantLines_eq]
  refine List.mem_filterMap.2 ⟨(line, n), hn, ?_⟩
  simp only [heq, hp.significant, if_true, String.ofList_toList]

/-- The lines of a source that say something are known from its trimmed lines. -/
theorem significantLines_of_trim {source source' : String}
    (h : (splitLines source.toList).map trim = (splitLines source'.toList).map trim) :
    significantLines source = significantLines source' := by
  rw [significantLines_eq, significantLines_eq, h]

namespace Diagram

variable (m : Diagram) {layout layout' : Layout}

theorem columnLines_indent (h : layout.declareImplicit = layout'.declareImplicit) (ps : List Participant)
    (declared : List String) (drawn : List Nat) :
    m.columnLines layout ps declared drawn = m.columnLines layout' ps declared drawn := by
  induction ps generalizing declared drawn with
  | nil => rfl
  | cons p ps ih => simp only [columnLines, h, ih]

/-- The lines of a diagram before they are indented do not depend on the indent. -/
theorem lines_indent (h : layout.declareImplicit = layout'.declareImplicit) : m.lines layout = m.lines layout' := by
  simp only [lines, declarationLines, columnLines_indent m h]

/-- Texts of one diagram in two indents are read as the same. -/
theorem read_indent (h : layout.declareImplicit = layout'.declareImplicit) {text text' : String}
    (ht : m.write layout = .ok text) (ht' : m.write layout' = .ok text') (strict : Bool) :
    Diagram.read text strict = Diagram.read text' strict := by
  unfold write at ht ht'
  rw [lines_indent m h] at ht
  cases hlines : m.lines layout' with
  | error e =>
    rw [hlines] at ht
    cases ht
  | ok lines =>
    rw [hlines] at ht ht'
    obtain rfl : textOf layout lines = text := Except.ok.inj ht
    obtain rfl : textOf layout' lines = text' := Except.ok.inj ht'
    have hread : significantLines (textOf layout lines) = significantLines (textOf layout' lines) :=
      significantLines_of_trim (by rw [trim_splitLines_textOf, trim_splitLines_textOf])
    rw [Diagram.read, Diagram.read, transcribe, transcribe, hread]

theorem write_of_writeWith {m : Diagram} {indent : Int} {declareImplicit : Bool} {text : String}
    (h : m.writeWith indent declareImplicit = .ok text) :
    ∃ layout : Layout, layout.declareImplicit = declareImplicit ∧ m.write layout = .ok text := by
  unfold writeWith Layout.ofIndent at h
  by_cases hi : indent < 0
  · simp [hi] at h
  · simp only [hi, if_false, writeWithin] at h
    refine ⟨{ indent := indent.toNat, declareImplicit }, rfl, ?_⟩
    split at h
    · exact h
    · split at h
      · cases h
      · exact h

end Diagram

/-! ## Main theorem -/

/-- A loop around a message whose text has a carriage return in it. -/
def brokenMessage : Diagram where
  timeline := [.blockStart { block := { kind := .loop } },
    .message { source := ⟨"A", false, false⟩, target := ⟨"B", false, false⟩, text := some "one\rtwo" }]

/-- Whatever their line breaks, empty lines, comments and indentation, two sources that say the
same are read alike: both are refused for the same reason, or both give the same diagram with
the same reports, line numbers apart. If they are texts of one diagram, with any strings in it,
that only differ in the indent, then the line numbers agree as well. -/
theorem layout_is_forgotten :
    (∀ source source' : String,
      (significantLines source).map SourceLine.text = (significantLines source').map SourceLine.text →
      ∀ strict, unnumberedResult (Diagram.read source strict) = unnumberedResult (Diagram.read source' strict)) ∧
    ∀ (m : Diagram) (indent indent' : Int) (declareImplicit : Bool) (text text' : String),
      m.writeWith indent declareImplicit = .ok text → m.writeWith indent' declareImplicit = .ok text' →
      ∀ strict, Diagram.read text strict = Diagram.read text' strict := by
  refine ⟨fun source source' h strict => read_unnumbered h strict, ?_⟩
  intro m indent indent' declareImplicit text text' ht ht' strict
  obtain ⟨layout, hl, hw⟩ := Diagram.write_of_writeWith ht
  obtain ⟨layout', hl', hw'⟩ := Diagram.write_of_writeWith ht'
  exact m.read_indent (hl.trans hl'.symm) hw hw' strict

/-- A loop around a message that breaks into two lines, written in two indents, and a source with
and without a comment. -/
theorem layout_is_forgotten_broken_message :
    (∀ strict, unnumberedResult (Diagram.read "sequenceDiagram\nA->>B\nend" strict) =
        unnumberedResult (Diagram.read "sequenceDiagram\r\n\n %% calls\r\tA->>B\n\n  end" strict)) ∧
      ∃ text text', text ≠ text' ∧
        brokenMessage.writeWith 0 true = .ok text ∧ brokenMessage.writeWith 4 true = .ok text' ∧
          ∀ strict, Diagram.read text strict = Diagram.read text' strict := by
  have hplain : (significantLines "sequenceDiagram\nA->>B\nend").map SourceLine.text =
      ["sequenceDiagram", "A->>B", "end"] := by decide +kernel
  have hspread : (significantLines "sequenceDiagram\r\n\n %% calls\r\tA->>B\n\n  end").map SourceLine.text =
      ["sequenceDiagram", "A->>B", "end"] := by decide +kernel
  have hsays := hplain.trans hspread.symm
  have hw : brokenMessage.writeWith 0 true = .ok "sequenceDiagram\nloop\nA->>B: one\rtwo\nend\n" := rfl
  have hw' : brokenMessage.writeWith 4 true =
      .ok "sequenceDiagram\n    loop\n        A->>B: one\rtwo\n    end\n" := rfl
  exact ⟨layout_is_forgotten.1 _ _ hsays, _, _, by decide, hw, hw', layout_is_forgotten.2 _ _ _ _ _ _ hw hw'⟩

end Lifeline
