import Lifeline.Proofs.Formatting
import Lifeline.Proofs.Recovery
import Lifeline.Proofs.Sightings
/-!
# The seams of a message line

The parts of a message stand on its line with nothing between them: a mark, an id, an
arrow, a mark and an id. An id that was read holds no arrow of its own, but together with
what stands beside it a source can make one: the mark of a deactivation with the tip of an
arrow at the beginning of the id, or a dash at the end of the id with a thin arrow. The
line is then divided too early, and what is read is not the message. In every other case
it is (`Diagram.message_survives_iff`).
-/

namespace Lifeline

open Text

/-! ## Arrows that begin too early -/

/-- Where an arrow begins in a text, one is found there or before. -/
theorem Arrow.find?_before {rest : List Char} (h : (startOf? rest).isSome = true) (front : List Char) :
    ∃ s, find? (front ++ rest) = some s ∧ s.before.length ≤ front.length := by
  obtain ⟨a, ha⟩ := Option.isSome_iff_exists.1 h
  have hprefix := literal_begins ha
  cases hf : find? (front ++ rest) with
  | none =>
    have hin : a.literal <:+: front ++ rest := hprefix.isInfix.trans (List.suffix_append front rest).isInfix
    exact absurd hin (find?_eq_none_iff.1 hf a)
  | some s =>
    refine ⟨s, rfl, Nat.le_of_not_lt fun hlt => ?_⟩
    refine (isFirst_of_find? hf).leftmost front.length hlt a ?_
    rwa [List.drop_left]

/-- A mark takes one character of what a source is read from. -/
theorem length_readSource (cs : List Char) :
    (readSource cs).1.length + (if (readSource cs).2.1 || (readSource cs).2.2 then 1 else 0) ≤ cs.length := by
  have htrim := length_trim_le cs
  have hpos : ∀ {o : Option Char} {c : Char}, (o = (trim cs).head? ∨ o = (trim cs).getLast?) → (o == some c) = true →
      0 < (trim cs).length := by
    intro o c ho hc
    refine List.length_pos_iff.2 fun h0 => ?_
    rcases ho with rfl | rfl <;> simp [h0] at hc
  unfold readSource
  dsimp only
  split
  · rename_i hc
    have := hpos (.inl rfl) hc
    simp only [List.length_drop, Bool.true_or, if_true]
    omega
  · split
    · rename_i hc
      have := hpos (.inl rfl) hc
      simp only [List.length_drop, Bool.or_true, if_true]
      omega
    · split
      · rename_i hc
        have := hpos (.inr rfl) hc
        simp only [List.length_dropLast, Bool.true_or, if_true]
        omega
      · simpa using htrim

theorem Endpoint.length_written (e : Endpoint) :
    e.written.length = e.id.toList.length + if e.activates || e.deactivates then 1 else 0 := by
  obtain ⟨id, a, d⟩ := e
  cases a <;> cases d <;> simp [written, mark, Nat.add_comm]

/-- A source is written no longer than what it was read from. -/
theorem length_written_le {line cs : List Char} {e : Endpoint} (h : readEndpoint line (readSource cs) = .ok e) :
    e.written.length ≤ cs.length := by
  obtain ⟨hid, ha, hd⟩ := readEndpoint_ok h
  have hlength : e.id.toList.length ≤ (readSource cs).1.length := by
    rw [(readId_ok hid).1]
    exact length_trim_le _
  have hread := length_readSource cs
  rw [e.length_written, ha, hd]
  omega

namespace Message

variable {x : Message}

/-! ## Sources with an arrow -/

/-- Whether an arrow begins in the source of the message: in the mark of a deactivation
that stands before a tip, or in a dash that stands before a thin arrow. -/
def runsTogether (x : Message) : Bool :=
  (x.source.deactivates && x.source.id.toList.head?.any Arrow.isTip) ||
    (x.source.id.toList.getLast? == some '-' && x.arrow.isThin)

/-- The line of a message is classified as one, and read as the message, which has no place
there yet. -/
def Survives (x : Message) : Prop :=
  LineKind.ofLine x.line = .ok .message ∧ Statement.ofKind .message x.line = .ok (.message { x with order := -1 })

instance (x : Message) : Decidable x.Survives := inferInstanceAs (Decidable (_ ∧ _))

/-- A message of which the line is read has its source from before the first arrow. -/
theorem source_of_read {line : List Char} (h : readMessage line = .ok (.message x)) :
    ∃ s, Arrow.find? (messageHead line) = some s ∧ readEndpoint line (readSource s.before) = .ok x.source := by
  obtain ⟨s, source, target, hs, hsource, -, he⟩ := readMessage_ok h
  cases he
  exact ⟨s, hs, hsource⟩

/-- If an arrow begins in the source, one is found before the source is over. -/
theorem Fits.find?_early (h : x.Fits) (hr : x.runsTogether = true) :
    ∃ s, Arrow.find? (messageHead x.line.toList) = some s ∧ s.before.length < x.source.written.length := by
  rw [messageHead_eq h.source.id h.target.id]
  -- The arrow begins behind `front`, which is shorter than the source.
  suffices hs : ∃ front rest, x.source.written ++ (x.arrow.literal ++ x.target.written) = front ++ '-' :: rest ∧
      Arrow.tipped rest = true ∧ front.length < x.source.written.length by
    obtain ⟨front, rest, heq, htip, hlt⟩ := hs
    have hstart : (Arrow.startOf? ('-' :: rest)).isSome = true := by rw [Arrow.startOf?_isSome (by decide), htip]; rfl
    obtain ⟨s, hs, hle⟩ := Arrow.find?_before hstart front
    exact ⟨s, heq ▸ hs, hle.trans_lt hlt⟩
  have hne := h.source.id.ne_nil
  rcases Bool.or_eq_true _ _ ▸ hr with hr | hr
  · obtain ⟨hd, htip⟩ := Bool.and_eq_true _ _ ▸ hr
    have ha : x.source.activates = false := by simpa [hd] using h.source.one
    obtain ⟨c, cs, hid⟩ := List.exists_cons_of_ne_nil hne
    have hw : x.source.written = '-' :: c :: cs := by simp [Endpoint.written, Endpoint.mark, ha, hd, hid]
    rw [hid] at htip
    refine ⟨[], (c :: cs) ++ (x.arrow.literal ++ x.target.written), by rw [hw]; rfl, ?_, by simp [hw]⟩
    simp only [List.head?_cons, Option.any_some] at htip
    simp [Arrow.tipped, htip]
  · obtain ⟨hlast, hthin⟩ := Bool.and_eq_true _ _ ▸ hr
    obtain ⟨front, hid⟩ := List.getLast?_eq_some_iff.1 (beq_iff_eq.1 hlast)
    have hw : x.source.written = (x.source.mark.toList ++ front) ++ ['-'] := by simp [Endpoint.written, hid]
    refine ⟨x.source.mark.toList ++ front, x.arrow.literal ++ x.target.written, by simp [hw], ?_, by simp [hw]⟩
    rw [Arrow.tipped_literal, hthin]

/-- A message survives on its line if and only if no arrow begins in its source. -/
theorem Fits.survives_iff (h : x.Fits) : x.Survives ↔ x.runsTogether = false := by
  constructor
  · rintro ⟨-, hread⟩
    by_contra hr
    obtain ⟨s, hs, hlt⟩ := h.find?_early (by simpa using hr)
    obtain ⟨s', hs', hsource⟩ := source_of_read hread
    obtain rfl := Option.some.inj (hs.symm.trans hs')
    exact absurd (length_written_le hsource) (not_le.2 hlt)
  · intro hr
    simp only [runsTogether, Bool.or_eq_false_iff, Bool.and_eq_false_imp] at hr
    obtain ⟨htip, hdash⟩ := hr
    have hlegible : x.Legible := by
      refine h.legible (fun hd c hc => ?_) fun hlast => hdash (by simp [hlast])
      have := htip hd
      rwa [Option.mem_def.1 hc] at this
    have hread := hlegible.reads.ofLine
    rw [Statement.ofLine, hlegible.kind] at hread
    exact ⟨hlegible.kind, hread⟩

end Message

/-! ## Messages that are read -/

/-- The items of a diagram that is read from a source fit on their lines. -/
theorem Diagram.items_of_read {source : String} {strict : Bool} {m : Diagram} (h : Diagram.read source strict = .ok m)
    {item : Statement} (hi : item ∈ m.timeline) : item.bare.Fits := by
  obtain ⟨d, d', ends, hd, -, -, -, hm⟩ := Diagram.read_completes (Diagram.read_lenient h)
  have htimeline := Draft.build_timeline_of_eq hd.aligned hm
  have hpast : item.bare ∈ d.past.reverse := htimeline ▸ List.mem_map_of_mem hi
  exact hd.items _ (List.mem_reverse.1 hpast)

/-- The messages of a diagram that is read from a source have ends and texts that fit on
their lines. -/
theorem Diagram.fits_of_read {source : String} {strict : Bool} {m : Diagram} (h : Diagram.read source strict = .ok m) {x : Message}
    (hx : .message x ∈ m.timeline) : x.Fits :=
  Diagram.items_of_read h hx

/-- Each message of a diagram that is read from a source, with the activations that were
folded into it, is read from its line as it is if and only if no arrow begins in its
source. -/
theorem Diagram.message_survives_iff {source : String} {strict : Bool} {m : Diagram}
    (h : Diagram.read source strict = .ok m) {x : Message} (hx : .message x ∈ m.timeline) :
    x.Survives ↔ x.runsTogether = false :=
  (Diagram.fits_of_read h hx).survives_iff

/-- A diagram with a single message. -/
def Message.alone (x : Message) : Diagram :=
  { participants := [{ id := x.source.id, explicit := false }, { id := x.target.id, explicit := false }]
    timeline := [.message x]
    statements := [.message x] }

/-- A source with a dash in it and the mark of a folded deactivation, and a target that ends
in a dash. -/
def dashedMessage : Message :=
  { source := { id := "A-B", deactivates := true }, target := { id := "C-", activates := true }, text := some "hi", order := 0 }

/-- Dashes that do not touch the arrow and marks that no tip follows do no harm. -/
theorem dashes_survive : Diagram.read "sequenceDiagram\nA-B->>+C-: hi\ndeactivate A-B\n" true = .ok dashedMessage.alone ∧
    .message dashedMessage ∈ dashedMessage.alone.timeline ∧ dashedMessage.Survives := by
  have hread : Diagram.read "sequenceDiagram\nA-B->>+C-: hi\ndeactivate A-B\n" true = .ok dashedMessage.alone := by
    decide +kernel
  have hmem : .message dashedMessage ∈ dashedMessage.alone.timeline := List.mem_cons_self
  exact ⟨hread, hmem, (Diagram.message_survives_iff hread hmem).2 (by decide)⟩

/-- A folded deactivation in front of the tip of an arrow. -/
def tippedMessage : Message :=
  { source := { id := "xavier", deactivates := true }, target := { id := "B" }, text := some "hi", order := 0 }

/-- A deactivation that is folded into the source of a message makes an arrow with the first
letter of its id. -/
theorem folded_mark_is_lost : ∃ source m x, Diagram.read source false = .ok m ∧ m.diagnostics = [] ∧
    .message x ∈ m.timeline ∧ ¬x.Survives :=
  ⟨"sequenceDiagram\nxavier->>B: hi\ndeactivate xavier\n", tippedMessage.alone, tippedMessage, by decide +kernel, rfl,
    List.mem_cons_self, by decide +kernel⟩

end Lifeline
