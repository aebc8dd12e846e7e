import Lifeline.Proofs.Accepted
import Lifeline.Proofs.Steps
/-!
# The nesting grammar

Blocks and boxes nest, and a block may be continued by the branches of its kind.
`Nested` is the grammar of such statements. A source whose lines all hold statements
is read without a report exactly if its statements are derivable
(`reports_nothing_iff_nested`): the stack of open frames is a pushdown automaton for
the grammar.
-/

namespace Lifeline

/-- A statement that neither opens, continues nor closes anything. -/
def Statement.IsLeaf : Statement → Prop
  | .blockStart _ | .blockBranch _ | .blockEnd _ | .boxStart _ => False
  | _ => True

/-- The two nonterminals: items in a row, and the further branches of a block. -/
inductive Phrase where
  | items
  | branches (kind : BlockKind)

/-- The grammar of nested statements. -/
inductive Nested : Phrase → List Statement → Prop where
  | nil : Nested .items []
  | leaf {s rest} (hs : s.IsLeaf) (hr : Nested .items rest) : Nested .items (s :: rest)
  | block {s body more e rest} (hb : Nested .items body) (hm : Nested (.branches s.block.kind) more)
      (hr : Nested .items rest) :
      Nested .items (.blockStart s :: body ++ more ++ .blockEnd e :: rest)
  | box {h body e rest} (hb : Nested .items body) (hr : Nested .items rest) :
      Nested .items (.boxStart h :: body ++ .blockEnd e :: rest)
  | noBranch {kind} : Nested (.branches kind) []
  | branch {kind b body more} (hk : kind.branchKeyword? = some b.keyword) (hb : Nested .items body)
      (hm : Nested (.branches kind) more) : Nested (.branches kind) (.blockBranch b :: body ++ more)

/-! ## The automaton -/

/-- The open regions after a statement, innermost first, unless it does not fit them. -/
def Region.enter (regions : List Region) : Statement → Option (List Region)
  | .blockStart s => some (.block s.block.kind :: regions)
  | .boxStart _ => some (.box :: regions)
  | .blockBranch b =>
    match regions with
    | .block kind :: _ => if kind.branchKeyword? = some b.keyword then some regions else none
    | _ => none
  | .blockEnd _ =>
    match regions with
    | _ :: outer => some outer
    | [] => none
  | _ => some regions

/-- The open regions after statements in order. -/
def Region.enterAll (regions : List Region) : List Statement → Option (List Region)
  | [] => some regions
  | s :: rest => (Region.enter regions s).bind fun regions => Region.enterAll regions rest

theorem Region.enter_leaf {s : Statement} (h : s.IsLeaf) (regions : List Region) :
    Region.enter regions s = some regions := by
  cases s <;> first | rfl | exact h.elim

/-- A branch is entered exactly in a block of its kind. -/
theorem Region.enter_branch {b : BlockBranch} {kind : BlockKind} (hk : BlockKind.ofBranchKeyword? b.keyword = some kind)
    (regions : List Region) :
    Region.enter regions (.blockBranch b) = if regions.head? = some (.block kind) then some regions else none := by
  have hkind := BlockKind.branchKeyword?_of_ofBranchKeyword? hk
  match regions with
  | [] | .box :: _ => rfl
  | .block kind' :: _ =>
    have hsame : kind'.branchKeyword? = some b.keyword ↔ kind' = kind :=
      ⟨fun h => BlockKind.branchKeyword?_injective h hkind, fun h => h ▸ hkind⟩
    simp [Region.enter, hsame]

theorem Region.enterAll_append (regions : List Region) (xs ys : List Statement) :
    Region.enterAll regions (xs ++ ys) =
      (Region.enterAll regions xs).bind fun regions => Region.enterAll regions ys := by
  induction xs generalizing regions with
  | nil => rfl
  | cons x xs ih =>
    simp only [List.cons_append, Region.enterAll]
    cases Region.enter regions x with
    | none => rfl
    | some regions' => exact ih regions'

/-- Where a phrase may stand. -/
def Phrase.Fits : Phrase → List Region → Prop
  | .items, _ => True
  | .branches kind, regions => ∃ outer, regions = .block kind :: outer

/-- A phrase leaves the open regions as they were. -/
theorem Nested.enterAll {phrase : Phrase} {items : List Statement} (h : Nested phrase items)
    {r : List Region} (hf : phrase.Fits r) : Region.enterAll r items = some r := by
  induction h generalizing r with
  | nil | noBranch => rfl
  | leaf hs _ ih =>
    simp only [Region.enterAll, Region.enter_leaf hs, Option.bind_some]
    exact ih trivial
  | block _ _ _ ihb ihm ihr =>
    simp only [List.cons_append, Region.enterAll, Region.enter, Option.bind_some, Region.enterAll_append,
      ihb (r := _ :: _) trivial, ihm (r := _ :: _) ⟨_, rfl⟩]
    exact ihr trivial
  | box _ _ ihb ihr =>
    simp only [List.cons_append, Region.enterAll, Region.enter, Option.bind_some, Region.enterAll_append,
      ihb (r := _ :: _) trivial]
    exact ihr trivial
  | branch hk _ _ ihb ihm =>
    obtain ⟨outer, rfl⟩ := hf
    simp only [List.cons_append, Region.enterAll, Region.enter, hk, if_true, Option.bind_some,
      Region.enterAll_append, ihb (r := _ :: _) trivial]
    exact ihm ⟨outer, rfl⟩

/-- What closes the open regions, innermost first: the rest of the innermost one with
its end, and then what closes the regions around it. -/
def Closes : List Region → List Statement → Prop
  | [], items => Nested .items items
  | .box :: outer, items =>
    ∃ body e rest, items = body ++ .blockEnd e :: rest ∧ Nested .items body ∧ Closes outer rest
  | .block kind :: outer, items =>
    ∃ body more e rest, items = body ++ more ++ .blockEnd e :: rest ∧ Nested .items body ∧
      Nested (.branches kind) more ∧ Closes outer rest

/-- What may stand before any items may stand before what closes the open regions. -/
theorem Closes.prepend {regions : List Region} {items p : List Statement} (h : Closes regions items)
    (hp : ∀ rest, Nested .items rest → Nested .items (p ++ rest)) : Closes regions (p ++ items) := by
  match regions, h with
  | [], h => exact hp _ h
  | .box :: _, h =>
    obtain ⟨body, e, rest, rfl, hb, hr⟩ := h
    exact ⟨p ++ body, e, rest, by simp, hp _ hb, hr⟩
  | .block _ :: _, h =>
    obtain ⟨body, more, e, rest, rfl, hb, hm, hr⟩ := h
    exact ⟨p ++ body, more, e, rest, by simp, hp _ hb, hm, hr⟩

/-- What closes the regions after a statement closes, behind the statement, those before it. -/
theorem Closes.cons {regions regions' : List Region} {s : Statement} {rest : List Statement} (h : Closes regions' rest)
    (he : Region.enter regions s = some regions') : Closes regions (s :: rest) := by
  cases s with
  | blockStart s =>
    cases he
    obtain ⟨body, more, e, rest', rfl, hb, hm, hc⟩ := h
    have := hc.prepend (p := .blockStart s :: body ++ more ++ [.blockEnd e]) fun xs hxs => by
      simpa using Nested.block (e := e) hb hm hxs
    simpa using this
  | boxStart heading =>
    cases he
    obtain ⟨body, e, rest', rfl, hb, hc⟩ := h
    have := hc.prepend (p := .boxStart heading :: body ++ [.blockEnd e]) fun xs hxs => by
      simpa using Nested.box (h := heading) (e := e) hb hxs
    simpa using this
  | blockBranch b =>
    match regions, he with
    | .block kind :: outer, he =>
      simp only [Region.enter, Option.ite_none_right_eq_some, Option.some.injEq] at he
      obtain ⟨hk, rfl⟩ := he
      obtain ⟨body, more, e, rest', rfl, hb, hm, hc⟩ := h
      exact ⟨[], .blockBranch b :: body ++ more, e, rest', by simp, .nil, .branch hk hb hm, hc⟩
  | blockEnd e =>
    match regions, he with
    | .box :: outer, he =>
      cases he
      exact ⟨[], e, rest, rfl, .nil, h⟩
    | .block kind :: outer, he =>
      cases he
      exact ⟨[], [], e, rest, rfl, .nil, .noBranch, h⟩
  | _ =>
    cases he
    exact h.prepend (p := [_]) fun xs => .leaf trivial

/-- Statements after which nothing is open close what was open. -/
theorem Region.closes_of_enterAll {items : List Statement} {regions : List Region}
    (h : Region.enterAll regions items = some []) : Closes regions items := by
  induction items generalizing regions with
  | nil =>
    cases h
    exact .nil
  | cons s rest ih =>
    obtain ⟨regions', he, hr⟩ := Option.bind_eq_some_iff.1 h
    exact (ih hr).cons he

/-- Nothing is left open exactly after the sentences of the grammar. -/
theorem Region.enterAll_eq_nil_iff (items : List Statement) :
    Region.enterAll [] items = some [] ↔ Nested .items items :=
  ⟨Region.closes_of_enterAll, fun h => h.enterAll trivial⟩

/-! ## Drafts that take in statements -/

namespace Draft

/-- The open regions of a draft, innermost first. -/
def regions (d : Draft) : List Region := d.frames.map Frame.region

/-- The open regions after an event. -/
def regionsAfter (regions : List Region) : Event → List Region
  | .openBox _ => .box :: regions
  | .openBlock kind _ _ => .block kind :: regions
  | .close => regions.tail
  | _ => regions

theorem Step.regions_eq {d d' : Draft} {e : Event} (h : Step d e d') : d'.regions = regionsAfter d.regions e := by
  cases h with
  | closeBox hf | closeBlock hf => simp [regions, regionsAfter, hf]
  | declare | message => simp [regions, regionsAfter]
  | _ => rfl

theorem Steps.regions_eq {d d' : Draft} {es : List Event} (h : Steps d es d') :
    d'.regions = es.foldl regionsAfter d.regions := by
  induction h with
  | nil => rfl
  | cons hs _ ih => rw [ih, hs.regions_eq, List.foldl_cons]

/-- A draft that takes in a statement enters the regions that the statement asks for. -/
theorem enter_of_feed {d : Draft} {s : Statement} {line : Option Int} {a : Answer}
    (h : (d.feed s line).result = .ok a) : Region.enter d.regions s = some (d.feed s line).draft.regions := by
  have hr := (steps_feed h).regions_eq
  rw [hr]
  cases s with
  | blockBranch b =>
    unfold feed openBranch at h
    unfold Frames.branch at h
    cases hk : BlockKind.ofBranchKeyword? b.keyword with
    | none => simp [hk] at h
    | some kind =>
      cases hf : d.frames with
      | nil => simp [hk, hf] at h
      | cons f outer =>
        by_cases hregion : f.region = .block kind
        · simp [Region.enter_branch hk, regions, hf, hregion, Operation.statementEvents, regionsAfter]
        · simp [hk, hf, hregion] at h
  | blockEnd e =>
    unfold feed close at h
    cases hf : d.frames with
    | nil => simp [hf, Frames.pop] at h
    | cons f outer => simp [Region.enter, regions, hf, Operation.statementEvents, regionsAfter]
  | links l =>
    simp only [Region.enter, Operation.statementEvents, Option.some.injEq]
    induction l.links with
    | nil => rfl
    | cons x xs ih => exact ih
  | declaration p => cases hc : p.created <;> simp [Region.enter, Operation.statementEvents, hc, regionsAfter]
  | directive x =>
    cases hk : x.kind <;> simp [Region.enter, Operation.statementEvents, hk, regionsAfter]
    split <;> rfl
  | _ => rfl

theorem mention_of_ne (d : Draft) {id : String} (h : id ≠ "") :
    ∃ r, d.mention id = ⟨{ d with roster := r }, .ok ()⟩ := by
  unfold mention Roster.mention?
  cases d.roster.contains id with
  | true => exact ⟨_, rfl⟩
  | false => simp [h]

theorem mentionAll_of_ne (d : Draft) {ids : List String} (h : ∀ id ∈ ids, id ≠ "") :
    ∃ r, d.mentionAll ids = ⟨{ d with roster := r }, .ok ()⟩ := by
  induction ids generalizing d with
  | nil => exact ⟨d.roster, rfl⟩
  | cons id ids ih =>
    obtain ⟨r, hr⟩ := d.mention_of_ne (h id (by simp))
    obtain ⟨r', hr'⟩ := ih { d with roster := r } fun i hi => h i (by simp [hi])
    exact ⟨r', by simp [mentionAll, Attempt.andThen, hr, hr']⟩

theorem register_of_ne (d : Draft) {id : String} (h : id ≠ "") (kind : ParticipantKind) (label : Option String) :
    ∃ r, d.register id kind label = ⟨{ d with roster := r }, .ok ()⟩ := by
  unfold register Roster.declare?
  cases d.roster.contains id <;> simp [h]

theorem andThen_ne_error {α β : Type} {a : Attempt α} {next : Draft → α → Attempt β} {x : α}
    (ha : a.result = .ok x) (hn : ∀ e, (next a.draft x).result ≠ .error e) (e : DraftError) :
    (a.andThen next).result ≠ .error e := by
  unfold Attempt.andThen
  rw [ha]
  exact hn e

theorem destroy_ne_error {d : Draft} {id : String} (h : id ≠ "") (e : DraftError) :
    (d.destroy id).result ≠ .error e := by
  obtain ⟨r, hr⟩ := d.mention_of_ne h
  intro he
  have := (andThen_error he (by
    intro x e
    dsimp only
    split
    · split <;> simp
    · simp)).1
  simp [hr] at this

theorem activation_ne_error {d : Draft} {id : String} (h : id ≠ "") (activate : Bool) (e : DraftError) :
    (d.activation id activate).result ≠ .error e := by
  obtain ⟨r, hr⟩ := d.mention_of_ne h
  intro he
  have := (andThen_error he (by
    intro x e
    dsimp only
    split
    · split <;> simp
    · simp)).1
  simp [hr] at this

theorem create_ne_error {d : Draft} {id : String} (h : id ≠ "") (kind : ParticipantKind) (label : Option String)
    (e : DraftError) : (d.create id kind label).result ≠ .error e := by
  obtain ⟨r, hr⟩ := d.register_of_ne h kind label
  simp [create, hr, Attempt.andThen]

theorem get?_id {r : Roster} {id : String} {p : Participant} (h : r.get? id = some p) : p.id = id := by
  simpa using List.find?_some h

/-- A directive for a participant with an id is always followed. -/
theorem follow_ne_error {d : Draft} {x : Directive} (h : x.id ≠ "") (e : DraftError) :
    (d.follow x).result ≠ .error e := by
  unfold follow
  cases x.kind with
  | activate => exact activation_ne_error h true e
  | deactivate => exact activation_ne_error h false e
  | destroy => exact destroy_ne_error h e
  | create =>
    cases hp : d.roster.get? x.id with
    | none => exact create_ne_error h _ _ e
    | some p =>
      have hid := get?_id hp
      exact create_ne_error (hid ▸ h) _ _ e

theorem addLinks_ne_error {d : Draft} {id : String} (h : id ≠ "") (ls : List Link) (e : DraftError) :
    (d.addLinks id ls).result ≠ .error e := by
  cases ls with
  | nil => simp [addLinks]
  | cons l ls =>
    obtain ⟨r, hr⟩ := d.mention_of_ne h
    have hl : ∃ a, (d.addLink id l).result = .ok a := by simp [addLink, hr, Attempt.andThen]
    obtain ⟨a, ha⟩ := hl
    have hc := (step_addLink ha).contains_of_link
    exact andThen_ne_error ha (by simp [addLinks_of_contains hc]) e

/-- A sound statement is refused only where it fits no frame. -/
theorem feed_refused {d : Draft} {s : Statement} {line : Option Int} (hs : s.Sound) {e : DraftError}
    (h : (d.feed s line).result = .error e) :
    Region.enter d.regions s = none ∧ ∃ f, e = .frame f ∧ ∀ keyword, f ≠ .notABranch keyword := by
  cases s with
  | blockBranch b =>
    unfold feed openBranch Frames.branch at h
    obtain ⟨kind, hk⟩ := Option.isSome_iff_exists.1 hs
    cases hf : d.frames with
    | nil =>
      simp only [hk, hf, Except.error.injEq] at h
      exact ⟨by simp [Region.enter, regions, hf], _, h.symm, by simp⟩
    | cons f outer =>
      by_cases hregion : f.region = .block kind
      · simp [hk, hf, hregion] at h
      · simp only [hk, hf, beq_eq_false_iff_ne.2 hregion, Bool.false_eq_true, if_false, Except.error.injEq] at h
        exact ⟨by simp [Region.enter_branch hk, regions, hf, hregion], _, h.symm, by simp⟩
  | blockEnd x =>
    unfold feed close at h
    cases hf : d.frames with
    | nil =>
      simp only [hf, Frames.pop, Except.error.injEq] at h
      exact ⟨by simp [Region.enter, regions, hf], _, h.symm, by simp⟩
    | cons f outer =>
      simp only [hf, Frames.pop] at h
      split at h <;> cases h
  | message m =>
    obtain ⟨hf, h1, h2⟩ := hs
    have hne : ∀ id ∈ [m.source.id, m.target.id], id ≠ "" := by simp [h1, h2]
    obtain ⟨r, hr⟩ := d.mentionAll_of_ne hne
    simp [feed, addMessage, hf, hr, Attempt.andThen] at h
  | note n =>
    obtain ⟨r, hr⟩ := d.mentionAll_of_ne hs.2
    simp [feed, addNote, hs.1, hr, Attempt.andThen] at h
  | directive x => exact absurd h (follow_ne_error hs e)
  | declaration p =>
    obtain ⟨r, hr⟩ := d.register_of_ne hs p.kind p.label
    cases hc : p.created <;> simp [feed, hc, create, declare, hr, Attempt.andThen] at h
  | links l => exact absurd h (addLinks_ne_error hs l.links e)
  | blockStart s => cases h
  | boxStart heading => cases h
  | autonumber => cases h

/-- A statement that is refused leaves the draft as it was. -/
theorem draft_of_refused {d : Draft} {x : Statement} {line : Option Int} (hx : x.Sound) {e : DraftError}
    (h : (d.feed x line).result = .error e) : (d.feed x line).draft = d := by
  obtain ⟨ids, hids, hs⟩ := feed_error h
  have hnames : Operation.statementNames x = [] := by
    have hnone := (feed_refused hx h).1
    cases x with
    | message | note => cases hnone
    | _ => rfl
  obtain rfl : ids = [] := by simpa [hnames] using hids
  generalize (d.feed x line).draft = d' at hs
  cases hs
  rfl

end Draft

/-! ## Sources -/

open Text

namespace Session

variable {s : Session}

/-- A step from a session that does not stop there, and what it reports. -/
def Goes (s : Session) (step : Step) (told : List Diagnostic) : Prop :=
  step.2 = none ∧ step.1.diagnostics = s.diagnostics ++ told

theorem andThen_of_none {step : Step} (h : step.2 = none) (next : Session → Step) :
    andThen step next = next step.1 := by
  obtain ⟨s', e⟩ := step
  cases h
  rfl

theorem andThen_of_some {step : Step} {e : ReadError} (h : step.2 = some e) (next : Session → Step) :
    andThen step next = step := by
  obtain ⟨s', e'⟩ := step
  cases h
  rfl

theorem andThen_done (step : Step) : andThen step (fun s => (s, none)) = step := by
  obtain ⟨s', e⟩ := step
  cases e <;> rfl

theorem of_andThen {step : Step} {n : Session → Step} (h : (andThen step n).2 = none) :
    step.2 = none ∧ andThen step n = n step.1 := by
  obtain ⟨s, e⟩ := step
  cases e with
  | none => exact ⟨rfl, rfl⟩
  | some e => cases h

theorem readLines_append (strict : Bool) (lines lines' : List SourceLine) :
    s.readLines strict (lines ++ lines') = andThen (s.readLines strict lines) fun s => s.readLines strict lines' := by
  induction lines generalizing s with
  | nil => rfl
  | cons line lines ih =>
    simp only [List.cons_append, readLines]
    obtain ⟨s', e⟩ := s.readLine strict line
    cases e with
    | none => exact ih
    | some e => rfl

theorem Goes.andThen {step : Step} {n : Session → Step} {told more : List Diagnostic} (h : Goes s step told)
    (hn : Goes step.1 (n step.1) more) : Goes s (andThen step n) (told ++ more) := by
  rw [andThen_of_none h.1]
  exact ⟨hn.1, by rw [hn.2, h.2, List.append_assoc]⟩

theorem advance_self (s : Session) : s.advance s.draft = s := by
  simp [advance, newMentions]

/-- The report on an end or a branch where nothing is open. -/
def strayed (line : SourceLine) : Diagnostic :=
  ⟨.unbalancedBlock, line.number, FrameError.nothingOpen.message ++ "; line skipped", line.text⟩

/-- The report on a line that does not fit what is open in a draft, which is kept in the label of
a block if one is open. -/
def misfit (d : Draft) (line : SourceLine) (e : FrameError) : Diagnostic :=
  ⟨.invalidBranchContext, line.number,
    e.message ++ (if (d.extendLabel line.text).2 then "; kept as label text" else "; line skipped"), line.text⟩

/-- A draft takes a sound statement in, or the statement is reported: where nothing is open it is
skipped, and elsewhere its line may grow a label. -/
theorem feed_cases (d : Draft) (line : SourceLine) {x : Statement} (hx : x.Sound) :
    (∃ a, (d.feed x (some line.number)).result = .ok a ∧ ∀ (s : Session) (strict : Bool), s.draft = d →
      s.feed strict line x = (s.advance (d.feed x (some line.number)).draft, none)) ∨
    ((d.feed x (some line.number)).result = .error (.frame .nothingOpen) ∧
      ∀ (s : Session) (strict : Bool), s.draft = d → s.feed strict line x = s.report strict (strayed line)) ∨
    ∃ f, (d.feed x (some line.number)).result = .error (.frame f) ∧
      ∀ (s : Session) (strict : Bool), s.draft = d → s.feed strict line x =
        ({ s with draft := (d.extendLabel line.text).1 } : Session).report strict (misfit d line f) := by
  cases hr : (d.feed x (some line.number)).result with
  | ok a =>
    refine .inl ⟨a, rfl, ?_⟩
    rintro s strict rfl
    simp only [feed, hr]
  | error e =>
    -- A refused statement leaves the draft as it was, so that the report is all that is left of it.
    have hdraft := Draft.draft_of_refused hx hr
    obtain ⟨-, f, rfl, hf⟩ := Draft.feed_refused hx hr
    cases f with
    | notABranch keyword => exact absurd rfl (hf keyword)
    | nothingOpen =>
      refine .inr (.inl ⟨rfl, ?_⟩)
      rintro s strict rfl
      simp only [feed, hr, hdraft, advance_self, strayed]
    | _ =>
      refine .inr (.inr ⟨_, rfl, ?_⟩)
      rintro s strict rfl
      simp only [feed, hr, hdraft, advance_self, misfit]

/-- A statement that fits is taken in. -/
theorem feed_taken (strict : Bool) (line : SourceLine) {x : Statement} {regions : List Region} (hx : x.Sound)
    (h : Region.enter s.draft.regions x = some regions) : ∃ a, (s.draft.feed x (some line.number)).result = .ok a ∧
      s.feed strict line x = (s.advance (s.draft.feed x (some line.number)).draft, none) := by
  rcases feed_cases s.draft line hx with ⟨a, ha, hs⟩ | ⟨he, -⟩ | ⟨f, he, -⟩
  · exact ⟨a, ha, hs s strict rfl⟩
  · exact absurd (Draft.feed_refused hx he).1 (by simp [h])
  · exact absurd (Draft.feed_refused hx he).1 (by simp [h])

theorem feed_fits (line : SourceLine) {x : Statement} {regions : List Region} (hx : x.Sound)
    (h : Region.enter s.draft.regions x = some regions) :
    Goes s (s.feed false line x) [] ∧ (s.feed false line x).1.draft.regions = regions := by
  obtain ⟨a, ha, hs⟩ := feed_taken false line hx h
  rw [Draft.enter_of_feed ha, Option.some.injEq] at h
  rw [hs]
  exact ⟨⟨rfl, by simp [advance]⟩, h⟩

theorem feed_misfits (line : SourceLine) {x : Statement} (hx : x.Sound)
    (h : Region.enter s.draft.regions x = none) : ∃ report, Goes s (s.feed false line x) [report] := by
  rcases feed_cases s.draft line hx with ⟨a, ha, -⟩ | ⟨-, hs⟩ | ⟨f, -, hs⟩
  · exact absurd (Draft.enter_of_feed ha) (by simp [h])
  · exact ⟨strayed line, hs s false rfl ▸ ⟨rfl, rfl⟩⟩
  · exact ⟨misfit s.draft line f, hs s false rfl ▸ ⟨rfl, rfl⟩⟩

theorem readLine_of_ok {line : SourceLine} {x : Statement} (h : Statement.ofLine line.text = .ok x) (s : Session)
    (strict : Bool) : s.readLine strict line = s.feed strict line x := by
  simp only [readLine, h]

/-- Lines that hold statements are read to the end. Something is reported unless each
statement fits the regions that are open at it. -/
theorem readLines_accepted {lines : List SourceLine} {xs : List Statement}
    (h : lines.map (fun line => Statement.ofLine line.text) = xs.map .ok) :
    ∃ told, Goes s (s.readLines false lines) told ∧
      ((told = [] ∧ Region.enterAll s.draft.regions xs = some (s.readLines false lines).1.draft.regions) ∨
        (told ≠ [] ∧ Region.enterAll s.draft.regions xs = none)) := by
  induction lines generalizing xs s with
  | nil =>
    obtain rfl : xs = [] := by simpa using h.symm
    exact ⟨[], ⟨rfl, by simp [readLines]⟩, .inl ⟨rfl, rfl⟩⟩
  | cons line lines ih =>
    obtain ⟨x, xs, rfl, hx, h⟩ := List.map_eq_cons_iff.1 h.symm
    have hsound := Statement.sound_of_ofLine hx.symm
    obtain ⟨more, hgo, hmore⟩ := ih (s := (s.feed false line x).1) h.symm
    simp only [readLines, readLine_of_ok hx.symm, Region.enterAll]
    cases he : Region.enter s.draft.regions x with
    | some regions =>
      obtain ⟨hf, hregions⟩ := feed_fits line hsound he
      refine ⟨more, hf.andThen hgo, ?_⟩
      rw [andThen_of_none hf.1, Option.bind_some, ← hregions]
      exact hmore
    | none =>
      obtain ⟨report, hf⟩ := feed_misfits line hsound he
      exact ⟨report :: more, hf.andThen hgo, .inr ⟨by simp, rfl⟩⟩

theorem reportOpen_goes (frames : List (Frame Nat)) : Goes s (s.reportOpen false frames) (frames.map unclosed) := by
  induction frames generalizing s with
  | nil => exact ⟨rfl, by simp [reportOpen]⟩
  | cons frame frames ih =>
    have hr : Goes s (s.report false (unclosed frame)) [unclosed frame] := ⟨rfl, rfl⟩
    exact hr.andThen ih

theorem reportOpen_draft {frames : List (Frame Nat)} : (s.reportOpen false frames).1.draft = s.draft := by
  induction frames generalizing s with
  | nil => rfl
  | cons frame frames ih => exact ih

end Session

theorem Diagram.read_eq {source : String} {first : SourceLine} {rest : List SourceLine} {step : Step}
    (hlines : significantLines source = first :: rest) (hheader : LineKind.ofLine first.text = .ok .header)
    (hstep : Session.andThen (({} : Session).readLines false rest) (fun s =>
      s.reportOpen false s.draft.frames.reverse) = step) (h : step.2 = none) :
    Diagram.read source false = .ok step.1.finish.2 := by
  obtain ⟨s, e⟩ := step
  cases h
  simp only [Diagram.read, transcribe, hlines, hheader, transcribeBody, hstep]

/-- A source whose lines after the header all hold statements is read without a report
exactly if the statements are nested. -/
theorem reports_nothing_iff_nested {source : String} {first : SourceLine} {rest : List SourceLine}
    {statements : List Statement} (hlines : significantLines source = first :: rest)
    (hheader : LineKind.ofLine first.text = .ok .header)
    (hrest : rest.map (fun line => Statement.ofLine line.text) = statements.map .ok) :
    ∃ d, Diagram.read source false = .ok d ∧ (d.diagnostics = [] ↔ Nested .items statements) := by
  obtain ⟨told, hgo, htold⟩ := Session.readLines_accepted (s := {}) hrest
  have hall := hgo.andThen (n := fun s => s.reportOpen false s.draft.frames.reverse)
    (Session.reportOpen_goes _)
  refine ⟨_, Diagram.read_eq hlines hheader rfl hall.1, ?_⟩
  simp only [Session.finish, hall.2, ← Region.enterAll_eq_nil_iff]
  rcases htold with ⟨rfl, he⟩ | ⟨hne, he⟩
  · have he' : Region.enterAll [] statements = _ := he
    simp [he', Draft.regions]
  · have he' : Region.enterAll [] statements = _ := he
    simp [he', hne]

/-- A block in two branches is read without a report. -/
theorem two_branches_report_nothing :
    ∃ d, Diagram.read "sequenceDiagram\nalt a\nA->>B\nelse b\nend" false = .ok d ∧
      (d.diagnostics = [] ↔ Nested .items
        [.blockStart { block := { kind := .alt, label := some "a" } },
          .message { source := { id := "A" }, target := { id := "B" } },
          .blockBranch { keyword := "else", label := some "b" }, .blockEnd {}]) := by
  have hlines : significantLines "sequenceDiagram\nalt a\nA->>B\nelse b\nend" =
      ⟨1, "sequenceDiagram"⟩ :: [⟨2, "alt a"⟩, ⟨3, "A->>B"⟩, ⟨4, "else b"⟩, ⟨5, "end"⟩] := rfl
  exact reports_nothing_iff_nested hlines rfl rfl

end Lifeline
