import Mathlib.Data.List.Basic
import Lifeline.Proofs.Layout
import Lifeline.Proofs.Nesting
/-!
# Reading on after a report

What becomes of a line depends only on the draft that it is read into
(`Session.readLine_fate`): the line is taken in, or it is reported, or it breaks the
reading off. So a strict reading goes like a lenient one up to the first report, where it
stops (`strict_reading`), and a line that is reported as skipped might as well be empty
(`skipped_lines_are_empty`).
-/

namespace Lifeline

open Text

/-- What becomes of a line that is read into a draft. -/
inductive Fate where
  | taken (after : Draft)
  | reported (after : Draft) (report : Diagnostic)
  | broken (error : LineError)

/-- Whether a report says that its line was skipped. -/
def Diagnostic.skips (x : Diagnostic) : Bool := "; line skipped".toList.isSuffixOf x.message.toList

/-- Whether a report says that its line was kept in a label. -/
def Diagnostic.keeps (x : Diagnostic) : Bool := "; kept as label text".toList.isSuffixOf x.message.toList

theorem isSuffixOf_eq_false {suffix text : List Char} {c : Char} (h : text.getLast? = some c) (hs : suffix ≠ [])
    (hc : suffix.getLast? ≠ some c) : suffix.isSuffixOf text = false := by
  cases hsuffix : suffix.isSuffixOf text with
  | false => rfl
  | true =>
    obtain ⟨before, rfl⟩ := List.isSuffixOf_iff_suffix.1 hsuffix
    rw [List.getLast?_append_of_ne_nil before hs] at h
    exact absurd h hc

theorem getLast?_message (text remedy : String) (h : remedy.toList ≠ []) :
    (text ++ remedy).toList.getLast? = remedy.toList.getLast? := by
  rw [String.toList_append, List.getLast?_append_of_ne_nil _ h]

/-- A text that is kept in a label is not skipped. -/
theorem Diagnostic.skips_kept (kind : DiagnosticKind) (line : Int) (text source : String) :
    (⟨kind, line, text ++ "; kept as label text", source⟩ : Diagnostic).skips = false :=
  isSuffixOf_eq_false (getLast?_message text _ (by decide)) (by decide) (by decide)

/-- A line that is skipped is not kept in a label. -/
theorem Diagnostic.keeps_skipped (kind : DiagnosticKind) (line : Int) (text source : String) :
    (⟨kind, line, text ++ "; line skipped", source⟩ : Diagnostic).keeps = false :=
  isSuffixOf_eq_false (getLast?_message text _ (by decide)) (by decide) (by decide)

namespace Fate

/-- The step of a session in which its line meets a fate. -/
def step (s : Session) (strict : Bool) : Fate → Step
  | .taken after => (s.advance after, none)
  | .reported after x => ({ s with draft := after } : Session).report strict x
  | .broken e => (s, some (.line e))

/-- A fate that a line can meet: a report names the line, and if it says that the line was
skipped, then the draft is as it was, and if it says that the line was kept, then a label of
the draft has grown by the line. -/
def Fits (d : Draft) (line : SourceLine) : Fate → Prop
  | .taken _ => True
  | .reported after x => x.line = line.number ∧ (x.skips = true → after = d) ∧
      (x.keeps = true → x.source = line.text ∧ Draft.Step d (.extend line.text) after)
  | .broken e => Statement.ofLine line.text = .error e ∧ e.isSyntax = false

end Fate

namespace Session

variable {s : Session}

/-- Every line meets a fate that only depends on the draft. -/
theorem readLine_fate (d : Draft) (line : SourceLine) : ∃ fate : Fate, fate.Fits d line ∧
    ∀ (s : Session) (strict : Bool), s.draft = d → s.readLine strict line = fate.step s strict := by
  -- As the reader goes: no statement, or one that the draft takes in or refuses.
  cases hx : Statement.ofLine line.text with
  | error e =>
    cases he : e.isSyntax with
    | true =>
      refine ⟨.reported d ⟨.unrecognizedStatement, line.number, e.message ++ "; line skipped", line.text⟩,
        ⟨rfl, fun _ => rfl, by simp [Diagnostic.keeps_skipped]⟩, ?_⟩
      rintro s strict rfl
      simp only [readLine, hx, he, if_true, Fate.step]
    | false =>
      refine ⟨.broken e, ⟨hx, he⟩, ?_⟩
      rintro s strict rfl
      simp only [readLine, hx, he, Bool.false_eq_true, if_false, Fate.step]
  | ok x =>
    simp only [readLine_of_ok hx]
    rcases feed_cases d line (Statement.sound_of_ofLine hx) with ⟨a, -, hs⟩ | ⟨-, hs⟩ | ⟨f, -, hs⟩
    · exact ⟨.taken (d.feed x (some line.number)).draft, trivial, hs⟩
    · refine ⟨.reported d (strayed line), ⟨rfl, fun _ => rfl, by simp [strayed, Diagnostic.keeps_skipped]⟩, ?_⟩
      rintro s strict rfl
      exact hs s strict rfl
    · refine ⟨.reported (d.extendLabel line.text).1 (misfit d line f), ⟨rfl, ?_⟩, hs⟩
      -- The line is kept if a block is open, and skipped otherwise.
      unfold misfit Draft.extendLabel
      cases hb : d.frames.block? with
      | none => exact ⟨fun _ => rfl, by simp [Diagnostic.keeps_skipped]⟩
      | some frame => exact ⟨by simp [Diagnostic.skips_kept], fun _ => ⟨rfl, .extend hb⟩⟩

/-! ## The body of a source -/

/-- Reads the lines after the header, and reports the frames that they leave open. -/
def readBody (strict : Bool) (lines : List SourceLine) : Step :=
  andThen (({} : Session).readLines strict lines) fun s => s.reportOpen strict s.draft.frames.reverse

end Session

/-- A source with a header is read by its body. -/
theorem Diagram.read_body {source : String} {first : SourceLine} {rest : List SourceLine}
    (hlines : significantLines source = first :: rest) (hheader : LineKind.ofLine first.text = .ok .header)
    (strict : Bool) :
    Diagram.read source strict = match Session.readBody strict rest with
      | (s, none) => .ok s.finish.2
      | (_, some e) => .error e := by
  simp only [Diagram.read, transcribe, hlines, hheader, transcribeBody, Session.readBody]
  generalize Session.andThen _ _ = step
  obtain ⟨s, e⟩ := step
  cases e <;> rfl

theorem Diagram.read_of_broken {source : String} {first : SourceLine} {rest : List SourceLine}
    (hlines : significantLines source = first :: rest) (hheader : LineKind.ofLine first.text = .ok .header)
    {strict : Bool} {e : ReadError} (h : (Session.readBody strict rest).2 = some e) :
    Diagram.read source strict = .error e := by
  rw [Diagram.read_body hlines hheader]
  generalize Session.readBody strict rest = step at h
  obtain ⟨s, e'⟩ := step
  obtain rfl : e' = _ := h
  rfl

/-- A source that is read has a header and a body. -/
theorem Diagram.body_of_read {source : String} {strict : Bool} {m : Diagram} (h : Diagram.read source strict = .ok m) :
    ∃ first rest s, significantLines source = first :: rest ∧ LineKind.ofLine first.text = .ok .header ∧
      Session.readBody strict rest = (s, none) ∧ m = s.finish.2 := by
  cases hlines : significantLines source with
  | nil => simp [Diagram.read, transcribe, hlines] at h
  | cons first rest =>
    have hheader : LineKind.ofLine first.text = .ok .header := by
      simp only [Diagram.read, transcribe, hlines] at h
      split at h
      · cases h
      · assumption
      · cases h
    rw [Diagram.read_body hlines hheader] at h
    split at h
    · rename_i s hs
      exact ⟨first, rest, s, rfl, hheader, hs, (Except.ok.inj h).symm⟩
    · cases h

/-! ## Strict readings -/

namespace Session

variable {s : Session}

/-- A lenient and a strict step from the same session: they are the same if nothing is
reported, and otherwise the strict one stops at the first report. -/
structure Lockstep (s : Session) (lenient strict : Step) : Prop where
  of_strict : strict.2 = none → lenient = strict ∧ lenient.1.diagnostics = s.diagnostics
  of_lenient : lenient.2 = none → ∃ told, lenient.1.diagnostics = s.diagnostics ++ told ∧
    (told = [] → strict = lenient) ∧
    ∀ x more, told = x :: more → strict.2 = some (.stopped x (s.diagnostics ++ [x]))

theorem Lockstep.same {step : Step} (h : step.2 = none → step.1.diagnostics = s.diagnostics) :
    s.Lockstep step step where
  of_strict := fun hs => ⟨rfl, h hs⟩
  of_lenient := fun hs => ⟨[], by simp [h hs], fun _ => rfl, by simp⟩

theorem Lockstep.report (x : Diagnostic) : s.Lockstep (s.report false x) (s.report true x) where
  of_strict := nofun
  of_lenient := fun _ => ⟨[x], rfl, by simp, by rintro _ _ ⟨⟩; rfl⟩

theorem Lockstep.andThen {lenient strict : Step} (h : s.Lockstep lenient strict) {n : Bool → Session → Step}
    (hn : ∀ s', Lockstep s' (n false s') (n true s')) :
    s.Lockstep (andThen lenient (n false)) (andThen strict (n true)) where
  of_strict := fun hs => by
    obtain ⟨hstrict, he⟩ := of_andThen hs
    obtain ⟨rfl, hd⟩ := h.of_strict hstrict
    rw [he] at hs ⊢
    rw [andThen_of_none hstrict, ← hd]
    exact (hn lenient.1).of_strict hs
  of_lenient := fun hl => by
    obtain ⟨hlenient, he⟩ := of_andThen hl
    rw [he] at hl ⊢
    obtain ⟨told, hd, hsame, hstop⟩ := h.of_lenient hlenient
    -- With nothing told both go on from one session; else the strict step has stopped, whatever
    -- the lenient one tells later.
    cases told with
    | nil =>
      rw [hsame rfl, andThen_of_none hlenient]
      have hd : lenient.1.diagnostics = s.diagnostics := by simpa using hd
      exact hd ▸ (hn lenient.1).of_lenient hl
    | cons x told =>
      obtain ⟨more, hm, -⟩ := (hn lenient.1).of_lenient hl
      refine ⟨x :: told ++ more, by rw [hm, hd, List.append_assoc], by simp, ?_⟩
      rintro _ _ ⟨⟩
      rw [andThen_of_some (hstop x told rfl)]
      exact hstop x told rfl

theorem readLine_lockstep (s : Session) (line : SourceLine) :
    s.Lockstep (s.readLine false line) (s.readLine true line) := by
  obtain ⟨fate, -, hfate⟩ := readLine_fate s.draft line
  rw [hfate s false rfl, hfate s true rfl]
  cases fate with
  | taken after => exact .same fun _ => rfl
  | reported after x => exact ⟨(Lockstep.report x).of_strict, (Lockstep.report x).of_lenient⟩
  | broken e => exact .same nofun

theorem readLines_lockstep (s : Session) (lines : List SourceLine) :
    s.Lockstep (s.readLines false lines) (s.readLines true lines) := by
  induction lines generalizing s with
  | nil => exact .same fun _ => rfl
  | cons line lines ih => exact (s.readLine_lockstep line).andThen (n := fun strict s => s.readLines strict lines) ih

theorem reportOpen_lockstep (s : Session) (frames : List (Frame Nat)) :
    s.Lockstep (s.reportOpen false frames) (s.reportOpen true frames) := by
  induction frames generalizing s with
  | nil => exact .same fun _ => rfl
  | cons frame frames ih => exact (Lockstep.report _).andThen (n := fun strict s => s.reportOpen strict frames) ih

theorem readBody_lockstep (lines : List SourceLine) : Lockstep {} (readBody false lines) (readBody true lines) :=
  (readLines_lockstep {} lines).andThen (n := fun strict s => s.reportOpen strict s.draft.frames.reverse)
    fun s => s.reportOpen_lockstep _

end Session

/-- The line that an error names. -/
def ReadError.line? : ReadError → Option Int
  | .missingHeader first => some first.number
  | .stopped cause _ => some cause.line
  | _ => none

/-- What a strict reading gives, a lenient one gives without a report. -/
theorem Diagram.read_of_strict {source : String} {m : Diagram} (h : Diagram.read source true = .ok m) :
    Diagram.read source false = .ok m ∧ m.diagnostics = [] := by
  obtain ⟨first, rest, s, hlines, hheader, hbody, rfl⟩ := Diagram.body_of_read h
  obtain ⟨hsame, hd⟩ := (Session.readBody_lockstep rest).of_strict (by rw [hbody])
  rw [hbody] at hsame
  rw [hsame] at hd
  exact ⟨by rw [Diagram.read_body hlines hheader, hsame], hd⟩

/-- Whatever is read at all is read leniently. -/
theorem Diagram.read_lenient {source : String} {strict : Bool} {m : Diagram} (h : Diagram.read source strict = .ok m) :
    Diagram.read source false = .ok m := by
  cases strict with
  | false => exact h
  | true => exact (Diagram.read_of_strict h).1

/-- A strict reading gives the diagram of a lenient one if that reports nothing, and
otherwise stops at its first report; and whatever a strict reading gives, a lenient one
gives without a report. -/
theorem strict_reading (source : String) :
    (∀ m, Diagram.read source false = .ok m →
      (m.diagnostics = [] → Diagram.read source true = .ok m) ∧
      ∀ x more, m.diagnostics = x :: more → ∃ e, Diagram.read source true = .error e ∧
        e = .stopped x [x] ∧ e.line? = some x.line ∧ e.message = x.text) ∧
    ∀ m, Diagram.read source true = .ok m → Diagram.read source false = .ok m ∧ m.diagnostics = [] := by
  constructor
  · intro m hm
    obtain ⟨first, rest, s, hlines, hheader, hbody, rfl⟩ := Diagram.body_of_read hm
    obtain ⟨told, hd, hsame, hstop⟩ := (Session.readBody_lockstep rest).of_lenient (by rw [hbody])
    rw [hbody] at hd hsame
    have hd : s.finish.2.diagnostics = told := hd
    constructor
    · intro hnone
      rw [Diagram.read_body hlines hheader, hsame (hd ▸ hnone)]
    · intro x more hx
      have hs := hstop x more (hd ▸ hx)
      exact ⟨.stopped x [x], Diagram.read_of_broken hlines hheader hs, rfl, rfl, rfl⟩
  · exact fun m hm => Diagram.read_of_strict hm

/-- An end too many is reported by a lenient reading, and stops a strict one. -/
theorem stray_end_stops : ∃ e, Diagram.read "sequenceDiagram\nA->>B\nend\nelse" true = .error e ∧
    e.line? = some 3 ∧ e.message = "line 3: 'end' without an open block; line skipped" := by
  obtain ⟨e, he, -, hl, hm⟩ := ((strict_reading "sequenceDiagram\nA->>B\nend\nelse").1 _ rfl).2 _ _ rfl
  exact ⟨e, he, hl, hm.trans (by decide)⟩

/-! ## Skipped lines -/

/-- Whether some report says that the line of a number was skipped. -/
def skipped (told : List Diagnostic) (number : Nat) : Bool :=
  told.any fun x => x.skips && x.line == number

theorem skipped_append (told more : List Diagnostic) (number : Nat) :
    skipped (told ++ more) number = (skipped told number || skipped more number) := List.any_append

theorem skipped_eq_false {told : List Diagnostic} {number : Nat} (h : ∀ x ∈ told, x.skips = true → x.line ≠ number) :
    skipped told number = false := by
  simpa [skipped] using h

/-- What is said about later lines skips no earlier one. -/
theorem skipped_of_later {told : List Diagnostic} {lines : List SourceLine} {number : Nat}
    (hlater : ∀ line ∈ lines, number < line.number) (habout : ∀ x ∈ told, ∃ line ∈ lines, x.line = line.number) :
    skipped told number = false :=
  skipped_eq_false fun x hx _ hn => by
    obtain ⟨line, hl, hxl⟩ := habout x hx
    have := hlater line hl
    omega

/-- What is said about an earlier line skips no later one. -/
theorem skipped_cons_of_earlier {x : Diagnostic} {number : Nat} (h : x.line < number) (told : List Diagnostic) :
    skipped (x :: told) number = skipped told number := by
  have hne : (x.line == number) = false := beq_eq_false_iff_ne.2 (Int.ne_of_lt h)
  simp [skipped, hne]

/-- A source with the same lines as another, those left empty that the given reports say were
skipped. -/
def Empties (told : List Diagnostic) (source source' : String) : Prop :=
  splitLines source'.toList = ((splitLines source.toList).zipIdx 1).map fun (line, number) =>
    if skipped told number then [] else line

/-- The lines that a report says were skipped can be left empty. -/
theorem exists_empties (told : List Diagnostic) (source : String) : ∃ source', Empties told source source' := by
  let lines := ((splitLines source.toList).zipIdx 1).map fun (line, number) => if skipped told number then [] else line
  refine ⟨String.ofList (lines.flatMap fun l => l ++ ['\n']), ?_⟩
  rw [Empties, String.toList_ofList]
  refine splitLines_lines fun l hl => ?_
  obtain ⟨⟨raw, number⟩, hm, rfl⟩ := List.mem_map.1 hl
  dsimp only
  split
  · exact oneLine_nil
  · exact oneLine_of_splitLines (List.zipIdx_map_fst 1 (splitLines source.toList) ▸ List.mem_map_of_mem hm)

/-- Empty lines say nothing. -/
theorem Empties.significantLines {told : List Diagnostic} {source source' : String} (h : Empties told source source') :
    significantLines source' = (significantLines source).filter fun line => !skipped told line.number := by
  unfold Text.significantLines
  rw [h]
  generalize splitLines source.toList = lines
  -- The induction is on the lines, so the first may have any number.
  generalize 1 = n
  induction lines generalizing n with
  | nil => rfl
  | cons line lines ih =>
    have hempty : isSignificant (trim []) = false := rfl
    simp only [List.zipIdx_cons, List.map_cons, List.filterMap_cons, ih]
    cases hs : skipped told n with
    | true =>
      simp only [if_true, hempty, Bool.false_eq_true, if_false]
      split
      · rfl
      · rename_i hline
        split at hline
        · obtain rfl := Option.some.inj hline
          rw [List.filter_cons_of_neg (by simp [hs])]
        · cases hline
    | false =>
      simp only [Bool.false_eq_true, if_false]
      split
      · rfl
      · rename_i hline
        split at hline
        · obtain rfl := Option.some.inj hline
          rw [List.filter_cons_of_pos (by simp [hs])]
        · cases hline

/-- The lines that say something are numbered upwards. -/
theorem significantLines_pairwise (source : String) :
    (significantLines source).Pairwise fun line line' => line.number < line'.number := by
  unfold significantLines
  generalize splitLines source.toList = lines
  have hzip : (lines.zipIdx 1).Pairwise fun e e' => e.2 < e'.2 := by
    have := List.zipIdx_map_snd 1 lines ▸ List.pairwise_lt_range'
    exact List.pairwise_map.1 this
  refine List.Pairwise.filterMap _ ?_ hzip
  rintro ⟨raw, n⟩ ⟨raw', n'⟩ hlt line hl line' hl'
  dsimp only at hl hl'
  split at hl
  · split at hl'
    · cases hl
      cases hl'
      exact hlt
    · cases hl'
  · cases hl

namespace Session

/-- A reading that is not broken off reports lines of its own, and reads the same if the lines
that it skips are left out. -/
theorem readLines_skipping {lines : List SourceLine} (hlines : lines.Pairwise fun line line' => line.number < line'.number)
    (s : Session) (h : (s.readLines false lines).2 = none) : ∃ told,
    (s.readLines false lines).1.diagnostics = s.diagnostics ++ told ∧
    (∀ x ∈ told, ∃ line ∈ lines, x.line = line.number) ∧
    ∀ t : Session, t.draft = s.draft →
      ∃ t', t.readLines false (lines.filter fun line => !skipped told line.number) = (t', none) ∧
        t'.draft = (s.readLines false lines).1.draft ∧
        t'.diagnostics = t.diagnostics ++ told.filter fun x => !x.skips := by
  -- On the lines: `t` is a session with the same draft that only reads what is not skipped.
  induction lines generalizing s with
  | nil => exact ⟨[], by simp [readLines], by simp, fun t ht => ⟨t, rfl, ht, by simp⟩⟩
  | cons line lines ih =>
    obtain ⟨hfirst, hrest⟩ := List.pairwise_cons.1 hlines
    obtain ⟨fate, hfits, hfate⟩ := readLine_fate s.draft line
    rw [readLines] at h ⊢
    obtain ⟨hline, he⟩ := of_andThen h
    rw [he] at h ⊢
    rw [hfate s false rfl] at hline h ⊢
    obtain ⟨told, hd, hnumbers, hsame⟩ := ih hrest _ h
    have hlater : skipped told line.number = false := skipped_of_later hfirst hnumbers
    have hnumbers' : ∀ x ∈ told, ∃ l ∈ line :: lines, x.line = l.number := fun x hx => by
      obtain ⟨l, hl, hxl⟩ := hnumbers x hx
      exact ⟨l, List.mem_cons_of_mem line hl, hxl⟩
    cases fate with
    | taken after =>
      refine ⟨told, hd, hnumbers', fun t ht => ?_⟩
      obtain ⟨t', hread, hdraft, ht'⟩ := hsame (t.advance after) rfl
      refine ⟨t', ?_, hdraft, ht'⟩
      rw [List.filter_cons_of_pos (by simp [hlater]), readLines, hfate t false ht]
      exact hread
    | reported after x =>
      have hearlier : lines.filter (fun l => !skipped (x :: told) l.number) = lines.filter fun l => !skipped told l.number :=
        List.filter_congr fun l hl => by
          rw [skipped_cons_of_earlier (hfits.1 ▸ Int.ofNat_lt.2 (hfirst l hl))]
      refine ⟨x :: told, hd.trans (by simp [Fate.step, report]), ?_, fun t ht => ?_⟩
      · intro y hy
        rcases List.mem_cons.1 hy with rfl | hy
        · exact ⟨line, List.mem_cons_self, hfits.1⟩
        · exact hnumbers' y hy
      · rw [← hearlier] at hsame
        cases hx : x.skips with
        | true =>
          -- A skipped line leaves the draft as it was, so it may as well not be there.
          have hafter := hfits.2.1 hx
          subst hafter
          obtain ⟨t', hread, hdraft, ht'⟩ := hsame t ht
          refine ⟨t', ?_, hdraft, by simp [ht', hx]⟩
          have hskip : skipped (x :: told) line.number = true := by simp [skipped, hx, hfits.1]
          rwa [List.filter_cons_of_neg (by simp [hskip])]
        | false =>
          have hkept : skipped (x :: told) line.number = false := by simpa [skipped, hx] using hlater
          obtain ⟨t', hread, hdraft, ht'⟩ := hsame (({ t with draft := after } : Session).report false x).1 rfl
          refine ⟨t', ?_, hdraft, by simp [ht', report, hx]⟩
          rw [List.filter_cons_of_pos (by simp [hkept]), readLines, hfate t false ht]
          exact hread
    | broken e => cases hline

/-- Lines that are read to their end are a body that is reported on line by line, and then on the
frames that it leaves open. -/
theorem readBody_of_readLines {lines : List SourceLine} {t : Session} (h : ({} : Session).readLines false lines = (t, none)) :
    ∃ s, readBody false lines = (s, none) ∧ s.draft = t.draft ∧
      s.diagnostics = t.diagnostics ++ t.draft.frames.reverse.map unclosed := by
  have hgoes := reportOpen_goes (s := t) t.draft.frames.reverse
  refine ⟨(t.reportOpen false t.draft.frames.reverse).1, ?_, reportOpen_draft, hgoes.2⟩
  rw [readBody, h]
  exact Prod.ext rfl hgoes.1

/-- A body that is read on to its end has lines that are read to theirs. -/
theorem of_readBody {lines : List SourceLine} {s : Session} (h : readBody false lines = (s, none)) :
    (({} : Session).readLines false lines).2 = none ∧ s.draft = (({} : Session).readLines false lines).1.draft ∧
      s.diagnostics = (({} : Session).readLines false lines).1.diagnostics ++
        (({} : Session).readLines false lines).1.draft.frames.reverse.map unclosed := by
  obtain ⟨hread, -⟩ := of_andThen (congrArg Prod.snd h)
  obtain ⟨s', hs', hsame⟩ := readBody_of_readLines (Prod.ext rfl hread)
  obtain rfl : s' = s := congrArg Prod.fst (hs'.symm.trans h)
  exact ⟨hread, hsame⟩

theorem getLast?_unclosed (frame : Frame Nat) : (unclosed frame).message.toList.getLast? = some '\'' :=
  getLast?_message _ "' is never closed with 'end'" (by decide)

theorem skips_unclosed (frame : Frame Nat) : (unclosed frame).skips = false :=
  isSuffixOf_eq_false (getLast?_unclosed frame) (by decide) (by decide)

theorem keeps_unclosed (frame : Frame Nat) : (unclosed frame).keeps = false :=
  isSuffixOf_eq_false (getLast?_unclosed frame) (by decide) (by decide)

end Session

/-- A source that is read is read as the same diagram if every line that was skipped is empty
instead, and then only these reports are missing. -/
theorem skipped_lines_are_empty {source : String} {m : Diagram} (h : Diagram.read source false = .ok m) :
    (∃ source', Empties m.diagnostics source source') ∧ ∀ source', Empties m.diagnostics source source' →
      Diagram.read source' false = .ok { m with diagnostics := m.diagnostics.filter fun x => !x.skips } := by
  refine ⟨exists_empties m.diagnostics source, fun source' hs => ?_⟩
  obtain ⟨first, rest, s, hlines, hheader, hbody, rfl⟩ := Diagram.body_of_read h
  have hordered := hlines ▸ significantLines_pairwise source
  obtain ⟨hfirst, hrest⟩ := List.pairwise_cons.1 hordered
  obtain ⟨hread, hs_draft, hs_told⟩ := Session.of_readBody hbody
  obtain ⟨told, htold, hnumbers, hsame⟩ := Session.readLines_skipping hrest {} hread
  obtain ⟨t, ht, hdraft, hdiagnostics⟩ := hsame {} rfl
  rw [htold] at hs_told
  generalize (({} : Session).readLines false rest).1 = r at hs_draft hs_told hdraft
  have hunclosed : ∀ x ∈ r.draft.frames.reverse.map Session.unclosed, x.skips = false := fun x hx => by
    obtain ⟨frame, -, rfl⟩ := List.mem_map.1 hx
    exact Session.skips_unclosed frame
  -- Frames that are left open are reported by their own lines, which were not skipped.
  have hskipped : ∀ n, skipped s.finish.2.diagnostics n = skipped told n := fun n => by
    have hnone : skipped (r.draft.frames.reverse.map Session.unclosed) n = false :=
      skipped_eq_false fun x hx hs => absurd hs (by simp [hunclosed x hx])
    rw [Session.finish, hs_told, skipped_append, skipped_append, hnone, Bool.or_false]
    rfl
  have hkept : skipped told first.number = false := skipped_of_later hfirst hnumbers
  have hlines' : significantLines source' = first :: rest.filter fun line => !skipped told line.number := by
    rw [hs.significantLines, hlines]
    simp only [hskipped]
    rw [List.filter_cons_of_pos (by simp [hkept])]
  -- Both readings end in the same draft, and so leave the same frames open.
  obtain ⟨s', hbody', hs'_draft, hs'_told⟩ := Session.readBody_of_readLines ht
  rw [Diagram.read_body hlines' hheader, hbody']
  have hfilter : (r.draft.frames.reverse.map Session.unclosed).filter (fun x => !x.skips) =
      r.draft.frames.reverse.map Session.unclosed := List.filter_eq_self.2 fun x hx => by simp [hunclosed x hx]
  simp only [Session.finish, hs'_draft, hdraft, hs_draft, hs'_told, hdiagnostics, hs_told, List.filter_append, hfilter,
    List.nil_append]

/-- An end and a branch where nothing is open are skipped; a branch that does not fit its block
stays in a label. -/
theorem misfits_are_empty : ∃ m, Diagram.read "sequenceDiagram\nend\nalt a\nand more\nend\nelse" false = .ok m ∧
    m.diagnostics.map Diagnostic.line = [2, 4, 6] ∧
    Diagram.read "sequenceDiagram\n\nalt a\nand more\nend\n\n" false =
      .ok { m with diagnostics := m.diagnostics.filter fun x => !x.skips } := by
  refine ⟨_, rfl, rfl, (@skipped_lines_are_empty "sequenceDiagram\nend\nalt a\nand more\nend\nelse" _ rfl).2 _ ?_⟩
  unfold Empties
  decide

end Lifeline
