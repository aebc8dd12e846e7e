import Lifeline.Proofs.Accepted
import Lifeline.Proofs.Layout
import Lifeline.Proofs.Patterns
import Lifeline.Proofs.Steps
import Lifeline.Statement.Writer
/-!
# Lines that name participants

A directive, a declaration and a link are read from their lines as they were written,
if the ids, labels and links are such as a line can hold.
-/

namespace Lifeline

open Text Text.Pattern

/-- A line that is kept when a text is read, and the statement that it holds. -/
structure Reads (text : String) (s : Statement) : Prop where
  plain : Plain text.toList
  ofLine : Statement.ofLine text = .ok s

/-- What a line can hold as a label. -/
structure IsLabel (cs : List Char) : Prop where
  ne_nil : cs ≠ []
  tight : Tight cs
  oneLine : OneLine cs

/-- What a line can hold as an id. -/
structure IsId (cs : List Char) : Prop extends IsLabel cs where
  free : cs.any isReserved = false
  noArrow : Arrow.find? cs = none

theorem IsId.readId {cs : List Char} (h : IsId cs) (line : List Char) :
    Lifeline.readId line cs = .ok (String.ofList cs) := by
  simp [Lifeline.readId, h.tight.trim_eq, h.ne_nil, h.free, h.noArrow]

theorem IsId.not_mem {cs : List Char} (h : IsId cs) {c : Char} (hc : isReserved c = true) : c ∉ cs := by
  intro hm
  have := List.any_eq_false.1 h.free c hm
  exact this hc

/-! ## Words at the beginning of a line -/

theorem isSignificant_of_head {cs : List Char} (h0 : cs ≠ []) (h : cs.head? ≠ some '%') :
    isSignificant cs = true := by
  obtain ⟨c, cs, rfl⟩ := List.exists_cons_of_ne_nil h0
  have hc : ('%' == c) = false := beq_eq_false_iff_ne.2 fun h' => h (by simp [h'.symm])
  simp [isSignificant, List.isPrefixOf, hc]

/-- A line of one word. -/
theorem plain_word {w : List Char} (hw : Solid w) (h0 : w ≠ []) (hp : w.head? ≠ some '%') : Plain w :=
  ⟨hw.tight, hw.oneLine, isSignificant_of_head h0 hp⟩

/-- A line of a word and something after it. -/
theorem plain_words {w rest : List Char} (hw : Solid w) (h0 : w ≠ []) (hp : w.head? ≠ some '%') (hr : Tight rest)
    (hr0 : rest ≠ []) (ho : OneLine rest) : Plain (w ++ ' ' :: rest) := by
  refine ⟨hw.tight.append hr h0 hr0 [' '], ?_, isSignificant_of_head (by simp) ?_⟩
  · have hb : isLineBreak ' ' = false := rfl
    simp [hw.oneLine, ho, hb]
  · obtain ⟨c, w, rfl⟩ := List.exists_cons_of_ne_nil h0
    exact hp

theorem kind_of_words {text : String} {w rest : List Char} (ht : text.toList = w ++ ' ' :: rest) (hw : Solid w)
    (h0 : w ≠ []) (hr : Tight rest) : LineKind.ofLine text = LineKind.ofWord text.toList w rest := by
  unfold LineKind.ofLine
  rw [show splitWord text.toList = (w, rest) from ht ▸ splitWord_append hw h0 hr]

theorem kind_of_first {text : String} {w rest : List Char} (ht : text.toList = w ++ ' ' :: rest) (hw : Solid w)
    (h0 : w ≠ []) : LineKind.ofLine text = LineKind.ofWord text.toList w (splitWord text.toList).2 := by
  have hs : (splitWord text.toList).1 = w := ht ▸ congrArg Prod.fst (splitWord_eq hw h0 rfl)
  simp only [LineKind.ofLine, hs]

/-- A statement that is read from a line of the given kind. -/
theorem Reads.of_kind {text : String} {s : Statement} (kind : LineKind) (hp : Plain text.toList)
    (hk : LineKind.ofLine text = .ok kind) (hs : Statement.ofKind kind text = .ok s) : Reads text s :=
  ⟨hp, by simp only [Statement.ofLine, hk, hs]⟩

/-! ## Directives -/

theorem DirectiveKind.word_solid (kind : DirectiveKind) : Solid kind.word.toList := by
  cases kind <;> decide

/-- The kind of line of a directive that is not a creation. -/
def DirectiveKind.lineKind : DirectiveKind → LineKind
  | .destroy => .destroy
  | _ => .activation

theorem DirectiveKind.ofWord {kind : DirectiveKind} (hk : kind ≠ .create) (line : List Char) (c : Char)
    (cs : List Char) : LineKind.ofWord line kind.word.toList (c :: cs) = .ok kind.lineKind := by
  cases kind with
  | create => exact absurd rfl hk
  | _ => rfl

/-- A directive that is not a creation is read from its line. -/
theorem reads_directive {kind : DirectiveKind} {id : String} (hk : kind ≠ .create) (hid : IsId id.toList) :
    Reads (kind.word ++ " " ++ id) (.directive { kind, id }) := by
  have ht : (kind.word ++ " " ++ id).toList = kind.word.toList ++ ' ' :: id.toList := by simp
  have hw := kind.word_solid
  have h0 : kind.word.toList ≠ [] := by cases kind <;> decide
  have hp : kind.word.toList.head? ≠ some '%' := by cases kind <;> decide
  have hs := splitWord_append hw h0 hid.tight
  refine .of_kind kind.lineKind (ht ▸ plain_words hw h0 hp hid.tight hid.ne_nil hid.oneLine) ?_ ?_
  · obtain ⟨c, cs, hc⟩ := List.exists_cons_of_ne_nil hid.ne_nil
    rw [kind_of_words ht hw h0 hid.tight, hc, DirectiveKind.ofWord hk]
  · have hr := hid.readId (kind.word.toList ++ ' ' :: id.toList)
    rw [String.ofList_toList] at hr
    cases kind with
    | create => exact absurd rfl hk
    | destroy => simp only [Statement.ofKind, DirectiveKind.lineKind, readDestroy, ht, hs, hr]; rfl
    | activate => simp only [Statement.ofKind, DirectiveKind.lineKind, readActivation, ht, hs, hr]; rfl
    | deactivate => simp only [Statement.ofKind, DirectiveKind.lineKind, readActivation, ht, hs, hr]; rfl

/-! ## Declarations -/

/-- Nothing inside the id looks like the beginning of a label, when the given text
follows the id. -/
def Unaliased (id tail : List Char) : Prop :=
  ∀ x y, id = x ++ y → x ≠ [] → y ≠ [] → aliasOrEnd (y ++ tail) = none

theorem aliasOrEnd_of_head {cs : List Char} (h : ∀ c ∈ cs.head?, isBlank c = false) :
    aliasOrEnd cs = (endOfLine cs).map fun _ => none := by
  unfold aliasOrEnd
  rw [someBlanks_of_head h]

/-- An id without blanks holds nothing that looks like a label. -/
theorem Solid.unaliased {id tail : List Char} (h : Solid id) (hone : OneLine tail) : Unaliased id tail := by
  intro x y hid _ hy
  obtain ⟨c, y, rfl⟩ := List.exists_cons_of_ne_nil hy
  have hy' : Solid (c :: y) := fun d hd => h d (by simp [hid, hd])
  rw [aliasOrEnd_of_head (by simpa using hy' c (by simp)),
    endOfLine_eq_none (oneLine_append.2 ⟨hy'.oneLine, hone⟩) (by simp)]
  rfl

/-- What follows the id in a declaration. -/
def aliasTail : Option String → List Char
  | some label => ' ' :: ("as".toList ++ ' ' :: label.toList)
  | none => []

theorem oneLine_aliasTail {label : Option String} (h : ∀ l ∈ label, IsLabel l.toList) : OneLine (aliasTail label) := by
  cases label with
  | none => simp [aliasTail]
  | some l =>
    have ha : OneLine " as ".toList := by decide
    exact oneLine_append.2 ⟨ha, (h l rfl).oneLine⟩

theorem aliasOrEnd_aliasTail {label : Option String} (h : ∀ l ∈ label, IsLabel l.toList) :
    aliasOrEnd (aliasTail label) = some (label.map String.toList) := by
  cases label with
  | none => rfl
  | some l =>
    have hl := h l rfl
    have hs : someBlanks someRestOfLine (' ' :: l.toList) = some l.toList := by
      rw [someBlanks_cons rfl hl.tight.1, someRestOfLine_eq hl.oneLine hl.ne_nil]
    have ha : ∀ c ∈ ("as".toList ++ ' ' :: l.toList).head?, isBlank c = false := by
      intro c hc
      cases hc
      rfl
    have := someBlanks_cons (n := literal "as".toList (someBlanks someRestOfLine)) (c := ' ') rfl ha
    rw [literal_append, hs] at this
    simp only [aliasTail, aliasOrEnd, this, Option.map_some]

theorem idAndAlias_eq {id : List Char} {label : Option String} (hid : IsId id)
    (hl : ∀ l ∈ label, IsLabel l.toList) (hu : Unaliased id (aliasTail label)) :
    idAndAlias (' ' :: (id ++ aliasTail label)) = some (id, label.map String.toList) := by
  unfold idAndAlias
  have hh : (id ++ aliasTail label).head? = id.head? := by
    obtain ⟨c, id, rfl⟩ := List.exists_cons_of_ne_nil hid.ne_nil
    rfl
  rw [someBlanks_cons rfl (hh ▸ hid.tight.1)]
  exact someShortest_append _ hid.ne_nil (fun c hc => by simpa [inLine] using ne_newline hid.oneLine hc)
    (aliasOrEnd_aliasTail hl) hu

/-- What the declaration line of a participant can hold. -/
structure Participant.Declarable (p : Participant) : Prop where
  id : IsId p.id.toList
  label : ∀ l ∈ p.label, IsLabel l.toList
  unaliased : Unaliased p.id.toList (aliasTail p.label)

/-- The statement of a declaration line. -/
def Participant.declaration (p : Participant) (created : Bool) : Statement :=
  .declaration { id := p.id, kind := p.kind, label := p.label, created }

theorem ParticipantKind.keyword_solid (kind : ParticipantKind) : Solid kind.keyword.toList := by
  cases kind <;> decide

theorem ParticipantKind.keyword_ne_nil (kind : ParticipantKind) : kind.keyword.toList ≠ [] := by
  cases kind <;> decide

theorem ParticipantKind.ofWord_keyword (kind : ParticipantKind) (line : List Char) (c : Char) (cs : List Char) :
    LineKind.ofWord line kind.keyword.toList (c :: cs) = .ok .participant := by
  cases kind <;> rfl

theorem LineKind.ofWord_create {kind : ParticipantKind} {line rest : List Char} {c : Char} {cs : List Char}
    (h : splitWord rest = (kind.keyword.toList, c :: cs)) :
    LineKind.ofWord line "create".toList rest = .ok .participant := by
  have hr : rest.isEmpty = false := by
    cases rest with
    | nil => exact absurd (Prod.mk.inj h).2 (List.cons_ne_nil c cs).symm
    | cons => rfl
  unfold LineKind.ofWord
  rw [h, hr]
  cases kind <;> rfl

namespace Participant.Declarable

variable {p : Participant}

/-- What follows the keyword in the declaration line. -/
def rest (p : Participant) : List Char := p.id.toList ++ aliasTail p.label

section Line

variable (hid : IsId p.id.toList) (hl : ∀ l ∈ p.label, IsLabel l.toList)

include hl in
theorem line_toList : p.declarationLine.toList = p.kind.keyword.toList ++ ' ' :: rest p := by
  unfold Participant.declarationLine rest aliasTail
  cases hlabel : p.label with
  | none => simp
  | some l =>
    have h0 : l ≠ "" := by
      rintro rfl
      exact (hl _ hlabel).ne_nil rfl
    simp [h0]

include hid in
theorem rest_ne_nil : rest p ≠ [] := by
  unfold rest
  simp [hid.ne_nil]

include hid hl

theorem rest_tight : Tight (rest p) := by
  unfold rest aliasTail
  cases hlabel : p.label with
  | none => simpa using hid.tight
  | some l =>
    have := hid.tight.append (hl l hlabel).tight hid.ne_nil (hl l hlabel).ne_nil " as ".toList
    exact this

theorem rest_oneLine : OneLine (rest p) :=
  oneLine_append.2 ⟨hid.oneLine, oneLine_aliasTail hl⟩

theorem plain_words_rest : Plain (p.kind.keyword.toList ++ ' ' :: rest p) := by
  have hp : p.kind.keyword.toList.head? ≠ some '%' := by cases p.kind <;> decide
  exact plain_words p.kind.keyword_solid p.kind.keyword_ne_nil hp (rest_tight hid hl) (rest_ne_nil hid) (rest_oneLine hid hl)

/-- The keyword makes the line a declaration. -/
theorem ofLine_line : LineKind.ofLine p.declarationLine = .ok .participant := by
  obtain ⟨c, cs, hc⟩ := List.exists_cons_of_ne_nil (rest_ne_nil hid)
  rw [kind_of_words (line_toList hl) p.kind.keyword_solid p.kind.keyword_ne_nil (rest_tight hid hl), hc,
    ParticipantKind.ofWord_keyword]

end Line

theorem declared_eq (h : p.Declarable) :
    declared (p.kind.keyword.toList ++ ' ' :: rest p) = some (p.kind, p.id.toList, p.label.map String.toList) := by
  have hi := idAndAlias_eq h.id h.label h.unaliased
  unfold declared
  cases hk : p.kind with
  | participant =>
    rw [show ParticipantKind.participant.keyword = "participant" from rfl, literal_append]
    simp [rest, hi]
  | actor =>
    have hn : literal "participant".toList idAndAlias ("actor".toList ++ ' ' :: rest p) = none := rfl
    rw [show ParticipantKind.actor.keyword = "actor" from rfl, literal_append, hn]
    simp [rest, hi]

theorem readId_eq (h : p.Declarable) (line : List Char) : readId line p.id.toList = .ok p.id := by
  rw [h.id.readId, String.ofList_toList]

theorem map_label (h : p.Declarable) :
    ((p.label.map String.toList).map fun cs => String.ofList (trim cs)) = p.label := by
  cases hl : p.label with
  | none => rfl
  | some l => simp [(h.label l hl).tight.trim_eq]

/-- A declaration is read from its line. -/
theorem reads (h : p.Declarable) : Reads p.declarationLine (p.declaration false) := by
  have ht := line_toList h.label
  refine .of_kind .participant (ht ▸ plain_words_rest h.id h.label) (ofLine_line h.id h.label) ?_
  have hn : literal "create".toList (someBlanks declared) (p.kind.keyword.toList ++ ' ' :: rest p) = none := by
    cases p.kind <;> rfl
  have hc : "create".toList.isPrefixOf (p.kind.keyword.toList ++ ' ' :: rest p) = false := by cases p.kind <;> rfl
  simp only [Statement.ofKind, readDeclaration, ht, hn, hc, Option.none_or, h.declared_eq, h.readId_eq,
    h.map_label, Except.map, Participant.declaration]

/-- A creation is read from its line. -/
theorem reads_create (h : p.Declarable) : Reads ("create " ++ p.declarationLine) (p.declaration true) := by
  have ht : ("create " ++ p.declarationLine).toList =
      "create".toList ++ ' ' :: (p.kind.keyword.toList ++ ' ' :: rest p) := by simp [line_toList h.label]
  have hw : Solid "create".toList := by decide
  have h0 : "create".toList ≠ [] := by decide
  have hkw := plain_words_rest h.id h.label
  refine .of_kind .participant (ht ▸ plain_words hw h0 (by decide) hkw.tight (by simp) hkw.oneLine) ?_ ?_
  · obtain ⟨c, cs, hc⟩ := List.exists_cons_of_ne_nil (rest_ne_nil h.id)
    have hs := splitWord_append p.kind.keyword_solid p.kind.keyword_ne_nil (rest_tight h.id h.label)
    rw [kind_of_words ht hw h0 hkw.tight]
    exact LineKind.ofWord_create (c := c) (hs.trans (by rw [hc]))
  · have hd : literal "create".toList (someBlanks declared)
        ("create".toList ++ ' ' :: (p.kind.keyword.toList ++ ' ' :: rest p)) =
          some (p.kind, p.id.toList, p.label.map String.toList) := by
      rw [literal_append, someBlanks_cons rfl hkw.tight.1, h.declared_eq]
    have hc : "create".toList.isPrefixOf ("create".toList ++ ' ' :: (p.kind.keyword.toList ++ ' ' :: rest p)) = true :=
      rfl
    simp only [Statement.ofKind, readDeclaration, ht, hd, hc, Option.some_or, h.readId_eq, h.map_label, Except.map,
      Participant.declaration]

end Participant.Declarable

end Lifeline
