import Lifeline.Proofs.Arrows
import Lifeline.Proofs.Texts
/-!
# Lines of messages

A message is read from its line as it was written unless its ends run into its arrow or
its marks.
-/

namespace Lifeline

open Text

/-! ## Ends of a message -/

/-- Whether a character marks an end of a message. -/
def isMark (c : Char) : Bool := c == '+' || c == '-'

/-- What the source of a message can be: its id is not read as a mark. -/
structure Endpoint.FitsSource (e : Endpoint) : Prop where
  id : IsId e.id.toList
  one : ¬(e.activates = true ∧ e.deactivates = true)
  first : e.isFree = true → ∀ c ∈ e.id.toList.head?, isMark c = false
  last : e.isFree = true → e.id.toList.getLast? ≠ some '+'

/-- A source whose id is not read as the tip of an arrow either. -/
structure Endpoint.LegibleSource (e : Endpoint) : Prop extends e.FitsSource where
  noTip : e.activates = false → e.deactivates = true → ∀ c ∈ e.id.toList.head?, Arrow.isTip c = false

/-- What the target of a message can be. -/
structure Endpoint.LegibleTarget (e : Endpoint) : Prop where
  id : IsId e.id.toList
  one : ¬(e.activates = true ∧ e.deactivates = true)
  first : e.isFree = true → ∀ c ∈ e.id.toList.head?, isMark c = false
  last : e.isFree = true → ∀ c ∈ e.id.toList.getLast?, isMark c = false

/-- An end of a message as it is written. -/
def Endpoint.written (e : Endpoint) : List Char := e.mark.toList ++ e.id.toList

/-- An end is written with one of the marks or with none. -/
theorem Endpoint.written_cases {e : Endpoint} (h : ¬(e.activates = true ∧ e.deactivates = true)) :
    (e.activates = true ∧ e.deactivates = false ∧ e.written = '+' :: e.id.toList) ∨
      (e.activates = false ∧ e.deactivates = true ∧ e.written = '-' :: e.id.toList) ∨
      (e.activates = false ∧ e.deactivates = false ∧ e.isFree = true ∧ e.written = e.id.toList) := by
  obtain ⟨id, a, d⟩ := e
  cases a <;> cases d <;> simp_all [written, mark, isFree]

theorem Endpoint.isLabel_written {e : Endpoint} (h : IsId e.id.toList) (h1 : ¬(e.activates = true ∧ e.deactivates = true)) :
    IsLabel e.written := by
  have hp : isLineBreak '+' = false := rfl
  have hm : isLineBreak '-' = false := rfl
  rcases e.written_cases h1 with ⟨-, -, hw⟩ | ⟨-, -, hw⟩ | ⟨-, -, -, hw⟩
  · have ht : Tight ['+'] := tight_singleton rfl
    exact hw ▸ ⟨by simp, ht.append h.tight (by simp) h.ne_nil [], by simp [h.oneLine, hp]⟩
  · have ht : Tight ['-'] := tight_singleton rfl
    exact hw ▸ ⟨by simp, ht.append h.tight (by simp) h.ne_nil [], by simp [h.oneLine, hm]⟩
  · exact hw ▸ h.toIsLabel

theorem head?_of_isMark {cs : List Char} (h : ∀ c ∈ cs.head?, isMark c = false) :
    (cs.head? == some '+') = false ∧ (cs.head? == some '-') = false := by
  cases cs with
  | nil => simp
  | cons c cs =>
    have := h c rfl
    simp only [isMark, Bool.or_eq_false_iff, beq_eq_false_iff_ne] at this
    simp [this]

theorem Endpoint.LegibleSource.readSource {e : Endpoint} (h : e.LegibleSource) :
    Lifeline.readSource e.written = (e.id.toList, e.activates, e.deactivates) := by
  have ht := (e.isLabel_written h.id h.one).tight.trim_eq
  unfold Lifeline.readSource
  rw [ht]
  rcases e.written_cases h.one with ⟨ha, hd, hw⟩ | ⟨ha, hd, hw⟩ | ⟨ha, hd, hf, hw⟩
  · simp [hw, ha, hd]
  · simp [hw, ha, hd]
  · obtain ⟨hp, hm⟩ := head?_of_isMark (h.first hf)
    simp [hw, ha, hd, hp, hm, h.last hf]

theorem Endpoint.LegibleTarget.readTarget {e : Endpoint} (h : e.LegibleTarget) :
    Lifeline.readTarget e.written = (e.id.toList, e.activates, e.deactivates) := by
  have ht := (e.isLabel_written h.id h.one).tight.trim_eq
  unfold Lifeline.readTarget
  rw [ht]
  rcases e.written_cases h.one with ⟨ha, hd, hw⟩ | ⟨ha, hd, hw⟩ | ⟨ha, hd, hf, hw⟩
  · simp [hw, ha, hd]
  · simp [hw, ha, hd]
  · obtain ⟨hp, hm⟩ := head?_of_isMark (h.first hf)
    obtain ⟨hp', hm'⟩ := head?_of_isMark (show ∀ c ∈ e.id.toList.reverse.head?, isMark c = false by simpa using h.last hf)
    simp only [List.head?_reverse] at hp' hm'
    simp [hw, ha, hd, hp, hm, hp', hm']

theorem readEndpoint_eq {id : String} {activates deactivates : Bool} (h : IsId id.toList) (line : List Char) :
    readEndpoint line (id.toList, activates, deactivates) = .ok { id, activates, deactivates } := by
  simp only [readEndpoint, h.readId, String.ofList_toList, Except.map]

/-! ## Messages -/

/-- The ends of a message do not run into its arrow. -/
structure Message.Separable (m : Message) : Prop where
  source : m.source.LegibleSource
  target : m.target.LegibleTarget
  noDash : m.source.id.toList.getLast? = some '-' → m.arrow.isThin = false

/-- What a message line can hold. -/
structure Message.Legible (m : Message) : Prop extends m.Separable where
  text : ∀ t ∈ m.text, IsSaid t.toList
  notComment : m.source.isFree = true → ['%', '%'].isPrefixOf m.source.id.toList = false
  kind : LineKind.ofLine m.line = .ok .message

namespace Message

variable {m : Message}

/-- A message without its text. -/
def head (m : Message) : String := m.source.mark ++ m.source.id ++ m.arrow.token ++ m.target.mark ++ m.target.id

theorem head_toList : m.head.toList = m.source.written ++ (m.arrow.literal ++ m.target.written) := by
  simp [head, Arrow.token, Endpoint.written]

theorem line_toList : m.line.toList = m.source.written ++ (m.arrow.literal ++ m.target.written) ++ textTail m.text := by
  rw [← head_toList]
  exact withText_toList m.head m.text

theorem Arrow.literal_oneLine (a : Arrow) : OneLine a.literal := by
  obtain ⟨line, head⟩ := a
  cases line <;> cases head <;> decide

theorem isLabel_head (hs : m.source.LegibleSource) (ht : m.target.LegibleTarget) : IsLabel m.head.toList := by
  have hs' := m.source.isLabel_written hs.id hs.one
  have ht' := m.target.isLabel_written ht.id ht.one
  rw [head_toList]
  exact ⟨by simp [hs'.ne_nil], hs'.tight.append ht'.tight hs'.ne_nil ht'.ne_nil _,
    by simp [hs'.oneLine, ht'.oneLine, Arrow.literal_oneLine]⟩

theorem not_mem_written {e : Endpoint} (h : IsId e.id.toList) {c : Char} (hc : isReserved c = true) :
    c ∉ e.written := by
  have hid := h.not_mem hc
  have hp : c ≠ '+' := by
    rintro rfl
    cases hc
  have hm : c ≠ '-' := by
    rintro rfl
    cases hc
  unfold Endpoint.written Endpoint.mark
  split
  · simp [hp, hid]
  · split <;> simp [hm, hid]

theorem tipped_eq_false {id : List Char} (hid : IsId id) (h : ∀ c ∈ id.head?, Arrow.isTip c = false) :
    Arrow.tipped id = false := by
  obtain ⟨c, cs, rfl⟩ := List.exists_cons_of_ne_nil hid.ne_nil
  have hlt : c ≠ '<' := fun hc => hid.not_mem (c := '<') rfl (by simp [hc])
  have ht := ((Arrow.find?_cons_eq_none hlt).1 hid.noArrow).1
  simp only [Arrow.tipped, h c rfl, Bool.false_or]
  cases hd : c == '-' with
  | false => rfl
  | true =>
    cases cs with
    | nil => rfl
    | cons d cs =>
      simp only [hd, Bool.true_and, Arrow.tipped, Bool.or_eq_false_iff] at ht
      simpa using ht.1

theorem find?_written_source {e : Endpoint} (h : e.LegibleSource) : Arrow.find? e.written = none := by
  rcases e.written_cases h.one with ⟨-, -, hw⟩ | ⟨ha, hd, hw⟩ | ⟨-, -, -, hw⟩
  · rw [hw, Arrow.find?_cons_eq_none (by decide)]
    exact ⟨rfl, h.id.noArrow⟩
  · rw [hw, Arrow.find?_cons_eq_none (by decide)]
    exact ⟨by simpa using tipped_eq_false h.id (h.noTip ha hd), h.id.noArrow⟩
  · exact hw ▸ h.id.noArrow

/-- The arrow of a message is found where it was written. -/
theorem Separable.find?_eq (h : m.Separable) :
    Arrow.find? (m.source.written ++ (m.arrow.literal ++ m.target.written)) =
      some ⟨m.source.written, m.arrow, m.target.written⟩ := by
  refine Arrow.find?_written m.arrow (find?_written_source h.source) (not_mem_written h.source.id rfl) ?_ ?_
  · intro hl
    refine h.noDash ?_
    rw [Endpoint.written, List.getLast?_append] at hl
    obtain ⟨c, cs, hc⟩ := List.exists_cons_of_ne_nil h.source.id.ne_nil
    rw [hc, List.getLast?_cons] at hl ⊢
    exact hl
  · intro hh
    exact not_mem_written h.target.id (c := '>') rfl (List.mem_of_mem_head? hh)

theorem literal_noColon (a : Arrow) : ':' ∉ a.literal := by
  obtain ⟨line, head⟩ := a
  cases line <;> cases head <;> decide

theorem messageHead_eq (hs : IsId m.source.id.toList) (ht : IsId m.target.id.toList) :
    messageHead m.line.toList = m.source.written ++ (m.arrow.literal ++ m.target.written) := by
  have hl := literal_noColon m.arrow
  have hall : ∀ c ∈ m.source.written ++ (m.arrow.literal ++ m.target.written), (c != ':') = true := by
    intro c hc
    have hne : c ≠ ':' := by
      rintro rfl
      simp [not_mem_written hs (c := ':') rfl, not_mem_written ht (c := ':') rfl, hl] at hc
    simpa using hne
  have htail : ((textTail m.text).takeWhile fun c => c != ':') = [] := by
    cases ht : m.text with
    | none => rfl
    | some t => by_cases h0 : t = "" <;> simp [textTail, h0]
  unfold messageHead
  rw [line_toList, List.takeWhile_append_of_pos hall, htail, List.append_nil]

theorem isSignificant_line (h : m.Legible) : isSignificant m.line.toList = true := by
  rw [line_toList]
  rcases m.source.written_cases h.source.one with ⟨-, -, hw⟩ | ⟨-, -, hw⟩ | ⟨-, -, hf, hw⟩
  · exact isSignificant_of_head (by simp [hw]) (by simp [hw])
  · exact isSignificant_of_head (by simp [hw]) (by simp [hw])
  · have hn := h.notComment hf
    rw [hw]
    obtain ⟨line, head⟩ := m.arrow
    match hid : m.source.id.toList, h.source.id.ne_nil with
    | [c], _ =>
      cases line <;> cases head <;>
        simp [isSignificant, List.isPrefixOf, Arrow.literal, LineStyle.dashes, HeadStyle.ends]
    | c :: d :: cs, _ =>
      rw [hid] at hn
      simpa [isSignificant, List.isPrefixOf, ← imp_iff_not_or] using hn

/-- A message is read from its line. -/
theorem Legible.reads (h : m.Legible) : Reads m.line (.message { m with order := -1 }) := by
  have hl := isLabel_withText (isLabel_head h.source h.target) h.text
  refine .of_kind _ ⟨hl.tight, hl.oneLine, isSignificant_line h⟩ h.kind ?_
  have htail : m.line.toList.drop (m.source.written ++ (m.arrow.literal ++ m.target.written)).length =
      textTail m.text := by
    rw [line_toList, List.drop_left]
  have htext : (if (textTail m.text).isEmpty = true then none else some (textAfterColon ((textTail m.text).drop 1))) =
      m.text := by
    cases ht : m.text with
    | none => rfl
    | some t =>
      rw [textAfterColon_tail (h.text t ht)]
      by_cases h0 : t = "" <;> simp [textTail, h0]
  simp only [Statement.ofKind, readMessage, messageHead_eq h.source.id h.target.id, h.toSeparable.find?_eq, htail, htext,
    h.source.readSource, h.target.readTarget, readEndpoint_eq h.source.id, readEndpoint_eq h.target.id, Except.map]

end Message

end Lifeline
