import Lifeline.Proofs.Aliases
import Lifeline.Proofs.Colors
import Lifeline.Proofs.Fitting
/-!
# What readers take from a line

Whatever is read from a plain line fits on a line again: every part of it is a part of the
line, and the readers trim what they keep. So the events of a statement that is read bring
only what fits (`Statement.isRead_of_ofLine`).
-/

namespace Lifeline

open Text Text.Pattern

/-- An event such as a line can give: it fits on a line, a colour that it gives to a box is
one, and an id that it declares holds nothing that looks like a label. -/
structure Event.IsRead (e : Event) : Prop where
  fits : e.Fits
  plain : ∀ heading, e = .openBox heading → Box.IsPlain { label := heading.label, color := heading.color }
  unaliased : ∀ {id kind label}, e.declaration? id = some (kind, label) → Unaliased id.toList (aliasTail label)

/-- Whether an event neither opens a box nor declares a participant. -/
def Event.isSimple : Event → Bool
  | .openBox _ | .declare _ _ _ | .create _ _ _ => false
  | _ => true

/-- A statement such as a line can hold: it means the same to every draft, and its events fit. -/
structure Statement.IsRead (s : Statement) : Prop where
  fixed : s.IsFixed
  events : ∀ e ∈ s.draftEvents, e.IsRead

theorem Event.Fits.isRead {e : Event} (h : e.Fits) (hs : e.isSimple = true) : e.IsRead where
  fits := h
  plain := by
    rintro heading rfl
    cases hs
  unaliased := fun {id kind label} hd => by
    cases e with
    | declare | create => cases hs
    | _ => cases hd

/-- A statement of one event. -/
theorem Statement.isRead_of_event {s : Statement} {e : Event} (hf : s.IsFixed) (he : s.draftEvents = [e]) (h : e.IsRead) :
    s.IsRead where
  fixed := hf
  events := fun e' hm => by
    rw [he] at hm
    exact List.mem_singleton.1 hm ▸ h

/-- A statement of one event that neither opens a box nor declares a participant. -/
theorem Statement.isRead_single {s : Statement} {e : Event} (hf : s.IsFixed) (he : s.draftEvents = [e]) (h : e.Fits)
    (hs : e.isSimple = true) : s.IsRead :=
  isRead_of_event hf he (h.isRead hs)

/-! ## Parts of a line -/

/-- The end of a tight line is a label once it is trimmed. -/
theorem isLabel_trim {cs line : List Char} (ht : Tight line) (ho : OneLine line) (hs : cs <:+ line) (h0 : cs ≠ []) :
    IsLabel (trim cs) := by
  obtain ⟨x, rfl⟩ := hs
  have hlast : cs.getLast h0 ∈ (x ++ cs).getLast? := by
    rw [List.getLast?_append, List.getLast?_eq_some_getLast h0]
    rfl
  exact ⟨List.ne_nil_of_mem (mem_trim (List.getLast_mem h0) (ht.2 _ hlast)), tight_trim cs, (oneLine_append.1 ho).2.trim⟩

theorem Color.label?_trimmed {cs : List Char} (h : Tight cs) :
    ∀ l ∈ Color.label? cs, IsTrimmed l.toList ∧ l.toList = cs := by
  intro l hl
  unfold Color.label? at hl
  split at hl
  · cases hl
  · rename_i h0
    cases hl
    rw [String.toList_ofList]
    exact ⟨⟨by simpa using h0, h⟩, rfl⟩

/-- What follows the first word of a line is a label, if there is any. -/
theorem isTidyLabel_label? {cs : List Char} (ht : Tight cs) (ho : OneLine cs) : IsTidyLabel (Color.label? cs) := by
  intro l hl
  obtain ⟨htrimmed, heq⟩ := Color.label?_trimmed ht l hl
  exact ⟨htrimmed.ne_nil, htrimmed.tight, heq ▸ ho⟩

theorem isTidyLabel_rest {line : List Char} (ho : OneLine line) : IsTidyLabel (Color.label? (splitWord line).2) :=
  isTidyLabel_label? (tight_trim _) fun c hc => ho c (mem_of_mem_splitWord hc)

/-! ## Ids -/

theorem isId_of_readId {line cs : List Char} {id : String} (h : readId line cs = .ok id) (ho : OneLine cs) : IsId id.toList := by
  obtain ⟨hid, hne, hfree, harrow⟩ := readId_ok h
  rw [hid]
  exact { ne_nil := hne, tight := tight_trim cs, oneLine := ho.trim, free := hfree, noArrow := harrow }

theorem isId_of_readIds {line : List Char} {pieces : List (List Char)} {ids : List String}
    (h : readIds line pieces = .ok ids) (ho : ∀ piece ∈ pieces, OneLine piece) : ∀ id ∈ ids, IsId id.toList := fun id hid => by
  obtain ⟨piece, hpiece, hread⟩ := (readIds_ok h).2 id hid
  exact isId_of_readId hread (ho piece hpiece)

theorem mem_of_mem_splitCommas {cs piece : List Char} (h : piece ∈ splitCommas cs) {c : Char} (hc : c ∈ piece) : c ∈ cs := by
  induction cs generalizing piece with
  | nil =>
    obtain rfl := List.mem_singleton.1 h
    cases hc
  | cons d cs ih =>
    unfold splitCommas at h
    split at h
    · rcases List.mem_cons.1 h with rfl | h
      · cases hc
      · exact List.mem_cons_of_mem d (ih h hc)
    · split at h
      · obtain rfl := List.mem_singleton.1 h
        exact List.mem_singleton.1 hc ▸ List.mem_cons_self
      · rename_i first more hs
        rcases List.mem_cons.1 h with rfl | h
        · rcases List.mem_cons.1 hc with rfl | hc
          · exact List.mem_cons_self
          · exact List.mem_cons_of_mem d (ih (by simp [hs]) hc)
        · exact List.mem_cons_of_mem d (ih (by simp [hs, h]) hc)

/-! ## Declarations and directives -/

theorem of_someRestOfLine {cs rest : List Char} (ho : OneLine cs) (h : someRestOfLine cs = some rest) : rest = cs ∧ cs ≠ [] := by
  unfold someRestOfLine at h
  rw [restOfLine_eq ho] at h
  obtain ⟨h, h0⟩ := Option.filter_eq_some_iff.1 h
  obtain rfl := Option.some.inj h
  exact ⟨rfl, by simpa using h0⟩

theorem of_aliasOrEnd {cs : List Char} {label : Option (List Char)} (ho : OneLine cs) (h : aliasOrEnd cs = some label) :
    ∀ l ∈ label, l <:+ cs ∧ l ≠ [] := by
  rintro l rfl
  unfold aliasOrEnd at h
  split at h
  · rename_i found hfound
    obtain rfl := Option.some.inj (Option.some.inj h)
    obtain ⟨rest, hs, h⟩ := of_someBlanks hfound
    obtain ⟨rest', hl, h⟩ := of_literal h
    obtain ⟨rest'', hs', h⟩ := of_someBlanks h
    have hsuf := (hs'.trans ⟨_, hl.symm⟩).trans hs
    obtain ⟨rfl, h0⟩ := of_someRestOfLine (ho.of_suffix hsuf) h
    exact ⟨hsuf, h0⟩
  · obtain ⟨-, -, h⟩ := Option.map_eq_some_iff.1 h
    cases h

/-- What is read as an id goes up to the first place where a label can begin. -/
theorem of_idAndAlias {cs id : List Char} {label : Option (List Char)} (h : idAndAlias cs = some (id, label)) :
    ∃ rest, id ++ rest <:+ cs ∧ aliasOrEnd rest = some label ∧ Unaliased id rest := by
  obtain ⟨taken, hs, hone⟩ := of_someBlanks h
  obtain ⟨rest, rfl, hend⟩ := of_someShortest hone
  exact ⟨rest, hs, hend, fun x y hid hx hy => none_of_someShortest hone hid hx hy⟩

theorem of_declared {cs id : List Char} {kind : ParticipantKind} {label : Option (List Char)}
    (h : declared cs = some (kind, id, label)) :
    ∃ rest, id ++ rest <:+ cs ∧ aliasOrEnd rest = some label ∧ Unaliased id rest := by
  have hword : ∀ word : List Char, literal word idAndAlias cs = some (id, label) →
      ∃ rest, id ++ rest <:+ cs ∧ aliasOrEnd rest = some label ∧ Unaliased id rest := by
    intro word hw
    obtain ⟨taken, rfl, htaken⟩ := of_literal hw
    obtain ⟨rest, hs, hfirst⟩ := of_idAndAlias htaken
    exact ⟨rest, hs.trans (List.suffix_append word taken), hfirst⟩
  unfold declared at h
  rcases Option.or_eq_some_iff.1 h with h | ⟨-, h⟩
  all_goals
    obtain ⟨⟨id', label'⟩, hw, he⟩ := Option.map_eq_some_iff.1 h
    cases he
    exact hword _ hw

/-- What is read from a declaration: an id without anything in it that looks like a label, and
a label that fits on a line. -/
theorem of_readDeclaration {line : List Char} {s : Statement} (hp : Plain line) (h : readDeclaration line = .ok s) :
    ∃ id kind label created, s = .declaration { id, kind, label, created } ∧ IsId id.toList ∧ IsTidyLabel label ∧
      Unaliased id.toList (aliasTail label) := by
  obtain ⟨kind, id, label, name, hd, hid, rfl⟩ := readDeclaration_ok h
  obtain ⟨rest, hs, hend, hfirst⟩ : ∃ rest, id ++ rest <:+ line ∧ aliasOrEnd rest = some label ∧ Unaliased id rest := by
    rcases Option.or_eq_some_iff.1 hd with hd | ⟨-, hd⟩
    · obtain ⟨behind, hl, hd⟩ := of_literal hd
      obtain ⟨taken, hs, hd⟩ := of_someBlanks hd
      obtain ⟨rest, hs', hfirst⟩ := of_declared hd
      exact ⟨rest, (hs'.trans hs).trans ⟨_, hl.symm⟩, hfirst⟩
    · exact of_declared hd
  have hone := hp.oneLine.of_suffix hs
  have htidy : IsTidyLabel (label.map fun cs => String.ofList (trim cs)) := by
    intro _ hl
    obtain ⟨l, hm, rfl⟩ := Option.map_eq_some_iff.1 hl
    rw [String.toList_ofList]
    obtain ⟨hsuffix, h0⟩ := of_aliasOrEnd (oneLine_append.1 hone).2 hend l hm
    exact isLabel_trim hp.tight hp.oneLine (hsuffix.trans ((List.suffix_append id rest).trans hs)) h0
  refine ⟨name, kind, _, _, rfl, isId_of_readId hid (oneLine_append.1 hone).1, htidy, ?_⟩
  rw [(readId_ok hid).1]
  exact hfirst.trimmed hone hend (by simp) (oneLine_aliasTail htidy)

theorem readDeclaration_isRead {line : List Char} {s : Statement} (hp : Plain line) (h : readDeclaration line = .ok s) :
    s.IsRead := by
  obtain ⟨id, kind, label, created, rfl, hid, hlabel, hfree⟩ := of_readDeclaration hp h
  have hdeclared : ∀ {e : Event}, (e = .create id kind label ∨ e = .declare id kind label) → e.IsRead := by
    rintro e (rfl | rfl)
    all_goals
      refine ⟨⟨hid, hlabel⟩, ?_, fun hd => ?_⟩
      · rintro _ ⟨⟩
      · simp only [Event.declaration?, Option.ite_none_right_eq_some, Option.some.injEq, Prod.mk.injEq] at hd
        obtain ⟨rfl, -, rfl⟩ := hd
        exact hfree
  cases created with
  | true => exact Statement.isRead_of_event (e := .create id kind label) trivial rfl (hdeclared (.inl rfl))
  | false => exact Statement.isRead_of_event (e := .declare id kind label) trivial rfl (hdeclared (.inr rfl))

theorem isId_of_rest {line : List Char} {id : String} (ho : OneLine line) (h : readId line (splitWord line).2 = .ok id) :
    IsId id.toList :=
  isId_of_readId h fun c hc => ho c (mem_of_mem_splitWord hc)

theorem readDestroy_isRead {line : List Char} {s : Statement} (hp : Plain line) (h : readDestroy line = .ok s) : s.IsRead := by
  obtain ⟨id, hid, rfl⟩ := map_ok h
  exact Statement.isRead_single (e := .destroy id) nofun rfl (isId_of_rest hp.oneLine hid) rfl

theorem readActivation_isRead {line : List Char} {s : Statement} (hp : Plain line) (h : readActivation line = .ok s) :
    s.IsRead := by
  obtain ⟨id, hid, rfl⟩ := map_ok h
  have hname := isId_of_rest hp.oneLine hid
  split
  · exact Statement.isRead_single (e := .activation id true) nofun rfl hname rfl
  · exact Statement.isRead_single (e := .activation id false) nofun rfl hname rfl

/-! ## Notes and links -/

theorem isSaid_normalized {s : String} (h : OneLine s.toList) : IsSaid (Text.normalized s).toList := by
  refine ⟨tight_normalized s, ?_⟩
  rw [Text.normalized, String.toList_ofList, Text.normalize, markNewlines_eq h.trim]
  exact h.trim

theorem oneLine_textAfterColon {cs : List Char} (h : OneLine cs) : OneLine (textAfterColon cs).toList := by
  rw [textAfterColon, String.toList_ofList]
  unfold unescape
  split
  · exact fun c hc => h.trim c (List.mem_of_mem_drop (List.dropLast_subset _ hc))
  · exact h.trim

theorem of_noted {line word targets text : List Char} (ho : OneLine line) (h : noted line = some (word, targets, text)) :
    OneLine targets ∧ OneLine text := by
  unfold noted at h
  obtain ⟨start, rest, rfl, -, h⟩ := of_caseless h
  obtain ⟨rest1, hs1, h⟩ := of_someBlanks h
  obtain ⟨-, word', rest2, -, -, hs2, h⟩ := of_placementWord h
  obtain ⟨rest3, hs3, h⟩ := of_someBlanks h
  obtain ⟨⟨targets', text'⟩, hone, he⟩ := Option.map_eq_some_iff.1 h
  cases he
  obtain ⟨rest4, rfl, hcolon⟩ := of_someShortest hone
  obtain ⟨rest5, hs5, hcolon⟩ := of_blanks hcolon
  obtain ⟨rest6, hl, hrest⟩ := of_literal hcolon
  have hall := oneLine_append.1 (ho.of_suffix (((hs3.trans hs2).trans hs1).trans (List.suffix_append start rest)))
  have htext := hall.2.of_suffix (List.IsSuffix.trans ⟨_, hl.symm⟩ hs5)
  rw [restOfLine_eq htext] at hrest
  exact ⟨hall.1, Option.some.inj hrest ▸ htext⟩

theorem Note.fault?_kept (n : Note) : n.kept.fault? = n.fault? := rfl

theorem readNote_isRead {line : List Char} {s : Statement} (hp : Plain line) (h : readNote line = .ok s) : s.IsRead := by
  have hsound := readNote_sound h
  obtain ⟨word, targets, text, placement, ids, hnoted, -, hids, rfl⟩ := readNote_ok h
  obtain ⟨htargets, htext⟩ := of_noted hp.oneLine hnoted
  refine Statement.isRead_single (e := .note { placement, targets := ids, text := textAfterColon text }) trivial rfl
    { targets := isId_of_readIds hids fun piece hpiece => ?_
      valid := (Note.fault?_kept _).trans hsound.1
      text := isSaid_normalized (oneLine_textAfterColon htext) } rfl
  split at hpiece
  · exact fun c hc => htargets c (mem_of_mem_splitCommas hpiece hc)
  · exact List.mem_singleton.1 hpiece ▸ htargets

theorem isRead_links {id : String} (hid : IsId id.toList) (links : List Link) :
    (Statement.links { id, links }).IsRead where
  fixed := trivial
  events := fun e he => by
    obtain ⟨l, -, rfl⟩ := List.mem_map.1 he
    exact Event.Fits.isRead (e := .link id l) hid rfl

theorem oneLine_of_linked {n : Matcher α} {word line : List Char} {id : List Char} {a : α} (ho : OneLine line)
    (h : literal word (someBlanks (someShortest beforeColon n)) line = some (id, a)) : OneLine id := by
  obtain ⟨rest, hl, h⟩ := of_literal h
  obtain ⟨rest', hs, h⟩ := of_someBlanks h
  obtain ⟨rest'', rfl, -⟩ := of_someShortest h
  exact (oneLine_append.1 (ho.of_suffix (hs.trans ⟨_, hl.symm⟩))).1

theorem readLink_isRead {line : List Char} {s : Statement} (hp : Plain line) (h : readLink line = .ok s) : s.IsRead := by
  obtain ⟨cs, id, links, hid, rfl, hform⟩ := readLink_ok h
  have hone : OneLine cs := by
    rcases hform with ⟨label, url, hlinked, -⟩ | ⟨payload, -, hlinked, -⟩
    · exact oneLine_of_linked hp.oneLine hlinked
    · exact oneLine_of_linked hp.oneLine hlinked
  exact isRead_links (isId_of_readId hid hone) links

/-! ## Blocks and boxes -/

theorem readBlockStart_isRead {line : List Char} {s : Statement} (hp : Plain line) (h : readBlockStart line = .ok s) :
    s.IsRead := by
  have hrest := isTidyLabel_rest hp.oneLine
  have hnone : IsTidyLabel none := nofun
  obtain ⟨kind, -, ⟨-, rfl⟩ | ⟨-, rfl⟩⟩ := readBlockStart_ok h
  · exact Statement.isRead_single (e := .openBlock kind none _) trivial rfl ⟨hnone, hrest⟩ rfl
  · exact Statement.isRead_single (e := .openBlock kind _ none) trivial rfl ⟨hrest, hnone⟩ rfl

theorem readBranch_isRead {line : List Char} {s : Statement} (hp : Plain line) (h : readBranch line = .ok s) : s.IsRead := by
  cases h
  exact Statement.isRead_single (e := .openBranch _ _) trivial rfl (isTidyLabel_rest hp.oneLine) rfl

namespace Color

/-- A token begins the text, and has no blanks around it. -/
theorem leadingToken_prefix (cs : List Char) : ∃ rest, leadingToken cs ++ rest = cs ∧ Tight (leadingToken cs) := by
  unfold leadingToken
  split
  · rename_i token rest hw
    rcases Option.or_eq_some_iff.1 hw with hw | ⟨-, hw⟩
    · obtain ⟨heq, opening, hfind, inner, -, rfl⟩ := call?_eq hw
      obtain ⟨-, hsolid, hparen, -⟩ := calls_shape (List.mem_of_find?_eq_some hfind)
      have hclose : Tight [')'] := tight_singleton rfl
      exact ⟨rest, heq, hsolid.tight.append hclose (List.ne_nil_of_mem hparen) (by simp) inner⟩
    · refine ⟨rest, (hex?_eq hw).1, Solid.tight fun c hc => ?_⟩
      unfold hex? at hw
      split at hw
      · simp only [Option.ite_none_right_eq_some, Option.some.injEq, Prod.mk.injEq] at hw
        obtain ⟨-, rfl, -⟩ := hw
        rcases List.mem_cons.1 hc with rfl | hc
        · rfl
        · by_contra hb
          have := isHexDigit_of_isBlank (Bool.not_eq_false _ ▸ hb)
          simp [List.mem_takeWhile_imp hc] at this
      · cases hw
  · refine ⟨_, List.takeWhile_append_dropWhile, Solid.tight fun c hc => ?_⟩
    simpa using List.mem_takeWhile_imp hc

theorem labelStartsWithColor_label? {cs : List Char} (h : Tight cs) : labelStartsWithColor (label? cs) = startsWithColor cs := by
  unfold label? labelStartsWithColor
  cases cs with
  | nil => rfl
  | cons c cs => simp [h.trim_eq]

/-- The heading of a box that is read holds parts of its text, and its colour is one. -/
theorem splitHeading_parts (text : List Char) :
    (∀ l ∈ (splitHeading text).label, IsTrimmed l.toList ∧ ∀ c ∈ l.toList, c ∈ text) ∧
    (∀ t ∈ (splitHeading text).color, IsTrimmed t.toList ∧ ∀ c ∈ t.toList, c ∈ text) ∧
      Box.IsPlain { label := (splitHeading text).label, color := (splitHeading text).color } := by
  have hplain : ∀ label, Box.IsPlain { label, color := none } := fun _ _ h => by cases h
  have ht := tight_trim text
  unfold splitHeading
  dsimp only
  split
  · exact ⟨nofun, nofun, hplain _⟩
  · rename_i h0
    split
    · refine ⟨?_, nofun, hplain _⟩
      rintro _ ⟨⟩
      rw [String.toList_ofList]
      exact ⟨⟨by simpa using h0, ht⟩, fun c hc => mem_of_mem_trim hc⟩
    · rename_i hcolor
      have hcolor : isColor (leadingToken (trim text)) = true := by simpa using hcolor
      obtain ⟨rest, hrest, htoken⟩ := leadingToken_prefix (trim text)
      have hdrop : (trim text).drop (leadingToken (trim text)).length = rest := by
        have := @List.drop_left _ (leadingToken (trim text)) rest
        rwa [hrest] at this
      have hmem : ∀ c ∈ leadingToken (trim text) ++ rest, c ∈ text := by
        rw [hrest]
        exact fun c hc => mem_of_mem_trim hc
      have hlabel : ∀ l ∈ label? (trim rest), IsTrimmed l.toList ∧ ∀ c ∈ l.toList, c ∈ text := by
        intro l hl
        obtain ⟨htrimmed, heq⟩ := label?_trimmed (tight_trim rest) l hl
        rw [heq]
        exact ⟨heq ▸ htrimmed, fun c hc => hmem c (List.mem_append_right _ (mem_of_mem_trim hc))⟩
      rw [hdrop]
      split
      · exact ⟨hlabel, nofun, hplain _⟩
      · rename_i hkeep
        refine ⟨hlabel, ?_, ?_⟩
        · rintro _ ⟨⟩
          rw [String.toList_ofList]
          have hne : leadingToken (trim text) ≠ [] := fun h => by simp [h, isColor] at hcolor
          exact ⟨⟨hne, htoken⟩, fun c hc => hmem c (List.mem_append_left _ hc)⟩
        · rintro _ ⟨⟩
          rw [String.toList_ofList, labelStartsWithColor_label? (tight_trim rest)]
          exact ⟨hcolor, by simpa using hkeep⟩

/-- The heading of a box that is read fits on a line. -/
theorem splitHeading_fits {text : List Char} (ho : OneLine text) :
    IsTidyLabel (splitHeading text).label ∧ IsTidyLabel (splitHeading text).color := by
  obtain ⟨hlabel, hcolor, -⟩ := splitHeading_parts text
  constructor
  · intro l hl
    obtain ⟨htrimmed, hmem⟩ := hlabel l hl
    exact ⟨htrimmed.ne_nil, htrimmed.tight, fun c hc => ho c (hmem c hc)⟩
  · intro c hc
    obtain ⟨htrimmed, hmem⟩ := hcolor c hc
    exact ⟨htrimmed.ne_nil, htrimmed.tight, fun c hc => ho c (hmem c hc)⟩

end Color

theorem readBox_isRead {line : List Char} {s : Statement} (hp : Plain line) (h : readBox line = .ok s) : s.IsRead := by
  cases h
  have hone : OneLine (splitWord line).2 := fun c hc => hp.oneLine c (mem_of_mem_splitWord hc)
  obtain ⟨hlabel, hcolor⟩ := Color.splitHeading_fits hone
  obtain ⟨-, -, hplain⟩ := Color.splitHeading_parts (splitWord line).2
  refine ⟨trivial, fun e he => ?_⟩
  obtain rfl := List.mem_singleton.1 he
  refine ⟨⟨hlabel, hcolor⟩, ?_, nofun⟩
  rintro _ ⟨⟩
  exact hplain

/-! ## Messages -/

/-- A source with neither mark is the text before the arrow. -/
theorem readSource_cases (cs : List Char) : (∀ c ∈ (readSource cs).1, c ∈ cs) ∧
    ((readSource cs).2 = (false, false) → (readSource cs).1 = trim cs ∧ (∀ c ∈ (trim cs).head?, isMark c = false) ∧
      (trim cs).getLast? ≠ some '+') := by
  unfold readSource
  dsimp only
  split
  · exact ⟨fun c hc => mem_of_mem_trim (List.mem_of_mem_drop hc), fun h => by cases h⟩
  · split
    · exact ⟨fun c hc => mem_of_mem_trim (List.mem_of_mem_drop hc), fun h => by cases h⟩
    · split
      · exact ⟨fun c hc => mem_of_mem_trim (List.dropLast_subset _ hc), fun h => by cases h⟩
      · rename_i hplus hminus hlast
        refine ⟨fun c hc => mem_of_mem_trim hc, fun _ => ⟨rfl, fun c hc => ?_, by simpa using hlast⟩⟩
        rw [Option.mem_def.1 hc] at hplus hminus
        simp_all [isMark]

/-- A target with neither mark is the text after the arrow. -/
theorem readTarget_cases (cs : List Char) : (∀ c ∈ (readTarget cs).1, c ∈ cs) ∧
    ((readTarget cs).2 = (false, false) → (readTarget cs).1 = trim cs ∧ (∀ c ∈ (trim cs).head?, isMark c = false) ∧
      ∀ c ∈ (trim cs).getLast?, isMark c = false) := by
  unfold readTarget
  dsimp only
  split
  · exact ⟨fun c hc => mem_of_mem_trim (List.mem_of_mem_drop hc), fun h => by cases h⟩
  · split
    · exact ⟨fun c hc => mem_of_mem_trim (List.mem_of_mem_drop hc), fun h => by cases h⟩
    · split
      · exact ⟨fun c hc => mem_of_mem_trim (List.dropLast_subset _ hc), fun h => by cases h⟩
      · split
        · exact ⟨fun c hc => mem_of_mem_trim (List.dropLast_subset _ hc), fun h => by cases h⟩
        · rename_i hplus hminus hplus' hminus'
          refine ⟨fun c hc => mem_of_mem_trim hc, fun _ => ⟨rfl, fun c hc => ?_, fun c hc => ?_⟩⟩
          · rw [Option.mem_def.1 hc] at hplus hminus
            simp_all [isMark]
          · rw [Option.mem_def.1 hc] at hplus' hminus'
            simp_all [isMark]

theorem free_marks {e : Endpoint} {marks : Bool × Bool} (ha : e.activates = marks.1) (hd : e.deactivates = marks.2)
    (hf : e.isFree = true) : marks = (false, false) := by
  obtain ⟨a, d⟩ := marks
  simpa [Endpoint.isFree, ha, hd] using hf

/-- What is read as a source can be one, and is all that stands before the arrow if it is free. -/
theorem fitsSource_of_read {line cs : List Char} {e : Endpoint} (ho : OneLine cs) (h : readEndpoint line (readSource cs) = .ok e) :
    e.FitsSource ∧ (e.isFree = true → e.id.toList = trim cs) := by
  obtain ⟨hid, ha, hd⟩ := readEndpoint_ok h
  obtain ⟨hsub, hfree⟩ := readSource_cases cs
  have hlist : e.isFree = true → e.id.toList = trim cs := fun hf => by
    rw [(readId_ok hid).1, (hfree (free_marks ha hd hf)).1, trim_trim]
  refine ⟨⟨isId_of_readId hid fun c hc => ho c (hsub c hc), ha ▸ hd ▸ readSource_marks cs, fun hf => ?_, fun hf => ?_⟩, hlist⟩
  · exact hlist hf ▸ (hfree (free_marks ha hd hf)).2.1
  · exact hlist hf ▸ (hfree (free_marks ha hd hf)).2.2

theorem legibleTarget_of_read {line cs : List Char} {e : Endpoint} (ho : OneLine cs)
    (h : readEndpoint line (readTarget cs) = .ok e) : e.LegibleTarget := by
  obtain ⟨hid, ha, hd⟩ := readEndpoint_ok h
  obtain ⟨hsub, hfree⟩ := readTarget_cases cs
  have hlist : e.isFree = true → e.id.toList = trim cs := fun hf => by
    rw [(readId_ok hid).1, (hfree (free_marks ha hd hf)).1, trim_trim]
  refine ⟨isId_of_readId hid fun c hc => ho c (hsub c hc), ha ▸ hd ▸ readTarget_marks cs, fun hf => ?_, fun hf => ?_⟩
  · exact hlist hf ▸ (hfree (free_marks ha hd hf)).2.1
  · exact hlist hf ▸ (hfree (free_marks ha hd hf)).2.2

theorem messageHead_append (line : List Char) : messageHead line ++ line.drop (messageHead line).length = line :=
  List.prefix_iff_eq_append.1 (List.takeWhile_prefix _)

/-- What follows the head of a message begins with the colon, if there is one. -/
theorem colon_mem_tail {line : List Char} (h : line.drop (messageHead line).length ≠ []) :
    ':' ∈ line.drop (messageHead line).length := by
  have hd : line.drop (messageHead line).length = line.dropWhile fun c => c != ':' := by
    have hsplit := List.takeWhile_append_dropWhile (p := fun c => c != ':') (l := line)
    exact List.append_cancel_left ((messageHead_append line).trans hsplit.symm)
  obtain ⟨c, tail, hc⟩ := List.exists_cons_of_ne_nil h
  have hhead : (c != ':') = false := head?_dropWhile (p := fun c => c != ':') (by rw [← hd, hc]; rfl)
  rw [hc]
  exact (by simpa using hhead : c = ':') ▸ List.mem_cons_self

/-- A plain line does not begin like a comment. -/
theorem not_comment_of_plain {line id : List Char} (hp : Plain line) (h : id <+: line) : ['%', '%'].isPrefixOf id = false := by
  refine Bool.eq_false_iff.2 fun hpre => ?_
  have hcomment : ['%', '%'].isPrefixOf line = true := by
    rw [List.isPrefixOf_iff_prefix] at hpre ⊢
    exact hpre.trans h
  have hsig := hp.significant
  simp [isSignificant, hcomment] at hsig

theorem readMessage_isRead {line : String} {s : Statement} (hp : Plain line.toList)
    (hk : LineKind.ofLine line = .ok .message) (h : readMessage line.toList = .ok s) : s.IsRead := by
  obtain ⟨sighting, source, target, hfind, hsource, htarget, rfl⟩ := readMessage_ok h
  have happend := messageHead_append line.toList
  have hcolon := @colon_mem_tail line.toList
  generalize line.toList.drop (messageHead line.toList).length = tail at happend hcolon
  have hline : line.toList = sighting.before ++ (sighting.arrow.literal ++ (sighting.after ++ tail)) := by
    rw [← happend, Arrow.find?_eq hfind]
    simp
  have ho := hp.oneLine
  rw [hline] at ho
  simp only [oneLine_append] at ho
  obtain ⟨hbefore, -, hafter, htail⟩ := ho
  obtain ⟨hs, hfree⟩ := fitsSource_of_read hbefore hsource
  have hfirst : ∀ c ∈ sighting.before.head?, isBlank c = false := fun c hc => hp.tight.1 c (by
    rw [hline, List.head?_append, Option.mem_def.1 hc]
    rfl)
  obtain ⟨b, hb⟩ := trim_prefix hfirst
  have hid : source.isFree = true → line.toList =
      source.id.toList ++ (b ++ (sighting.arrow.literal ++ (sighting.after ++ tail))) := fun hf => by
    rw [hfree hf, hline, ← List.append_assoc (trim _) b, ← hb]
  refine Statement.isRead_single (e := .message _) trivial rfl
    { source := hs, target := legibleTarget_of_read hafter htarget, text := ?_
      notComment := fun hf => not_comment_of_plain hp ⟨_, (hid hf).symm⟩, leads := ?_ } rfl
  · intro t ht
    obtain ⟨u, hu, rfl⟩ := Option.map_eq_some_iff.1 ht
    dsimp only at hu
    split at hu
    · cases hu
    · obtain rfl := Option.some.inj hu
      exact isSaid_normalized (oneLine_textAfterColon fun c hc => htail c (List.mem_of_mem_drop hc))
  · intro hf
    obtain ⟨hclaim, hbranch⟩ := LineKind.unclaimed_of_message hk
    rw [hid hf] at hclaim hbranch
    refine LineKind.not_misleads hs.id.tight (hid hf ▸ hp.tight) (fun hsaid => ?_) hclaim hbranch
    have hne : tail ≠ [] := by
      rintro rfl
      cases hsaid
    simp [hcolon hne]

/-! ## Any line -/

/-- What is read from a plain line brings only what fits on a line. -/
theorem Statement.isRead_of_ofLine {line : String} {s : Statement} (hp : Plain line.toList)
    (h : Statement.ofLine line = .ok s) : s.IsRead := by
  obtain ⟨kind, hkind, h⟩ := Statement.ofLine_ok h
  cases kind with
  | header | unknown => cases h
  | autonumber =>
    cases h
    exact Statement.isRead_single (e := .number true) trivial rfl trivial rfl
  | close =>
    cases h
    exact Statement.isRead_single (e := .close) trivial rfl trivial rfl
  | participant => exact readDeclaration_isRead hp h
  | destroy => exact readDestroy_isRead hp h
  | activation => exact readActivation_isRead hp h
  | noteLeft | noteRight | noteOver => exact readNote_isRead hp h
  | link => exact readLink_isRead hp h
  | blockStart => exact readBlockStart_isRead hp h
  | boxStart => exact readBox_isRead hp h
  | branch => exact readBranch_isRead hp h
  | message => exact readMessage_isRead hp hkind h

end Lifeline
