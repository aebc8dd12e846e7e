import Lifeline.Proofs.Colors
import Lifeline.Proofs.Tidy
/-!
# Round trips of assembled diagrams

A diagram that is assembled by tidy operations is written as a text that is read back
without a report, as the same diagram: its timeline, its tree and its numbering are the
same, and so are its participants and boxes but for their order (`TidyRun.round_trip`).
-/

namespace Lifeline

open History Text

/-- A participant as it is read back: declared if all are, with the halves in its links
replaced. -/
def Diagram.readBack (layout : Layout) (p : Participant) : Participant :=
  { p with explicit := p.explicit || layout.declareImplicit, links := p.links.map (Link.standing Half.replaced) }

/-- The participant that an operation creates. -/
def Operation.created? : Operation → Option String
  | .create id _ _ => some id
  | _ => none

/-- An operation that brings only what fits on a line, into a draft where it does not label
a rectangle. -/
def Operation.IsTidy (d : Draft) : Operation → Prop
  | .declare id _ label | .create id _ label => IsSafe id ∧ IsTidyLabel label
  | .destroy id | .activate id | .deactivate id => IsSafe id
  | .addLink id l => IsSafe id ∧ l.IsTidy
  | .openBox heading _ => IsTidyLabel heading.label ∧ IsTidyLabel heading.color
  | .addMessage m => IsSafe m.source.id ∧ IsSafe m.target.id ∧ ∀ t ∈ m.text, OneLine (Text.normalized t).toList
  | .addNote n => (∀ id ∈ n.targets, IsSafe id) ∧ OneLine (Text.normalized n.text).toList
  | .startBlock kind label color _ =>
    IsTidyLabel label ∧ IsTidyLabel color ∧ if kind = .rect then label = none else color = none
  | .addBranch label _ => IsTidyLabel label
  | .extendLabel text => IsLabel text.toList ∧ ∀ f ∈ d.frames.block?, f.region ≠ .block .rect
  | .setAutonumber _ | .close => True
  | .feed _ _ => False

/-- Tidy operations that all succeed, the draft before them and the draft after them. -/
inductive TidyRun : Draft → List Operation → Draft → Prop where
  | nil {d} : TidyRun d [] d
  | cons {d op a ops d'} (ht : op.IsTidy d) (h : (d.apply op).result = .ok a) (hs : TidyRun (d.apply op).draft ops d') :
      TidyRun d (op :: ops) d'

theorem given_of_tidy {label : Option String} (h : IsTidyLabel label) : given label = label := by
  cases label with
  | none => rfl
  | some l => simp [given, Option.filter, ne_empty (h l rfl).trimmed]

/-- A tidy operation comes down to one tidy event, or to none. -/
theorem Operation.IsTidy.events {d : Draft} {op : Operation} (h : op.IsTidy d) :
    (op.events d = [] ∧ op.created? = none) ∨
      ∃ e : Event, op.events d = [e] ∧ e.IsTidy d ∧ ∀ id, e.creates id = (op.created? == some id) := by
  cases op with
  | declare id kind label => exact .inr ⟨_, rfl, h, fun _ => rfl⟩
  | create id kind label => exact .inr ⟨_, rfl, h, fun _ => rfl⟩
  | destroy id => exact .inr ⟨_, rfl, h, fun _ => rfl⟩
  | activate id => exact .inr ⟨_, rfl, h, fun _ => rfl⟩
  | deactivate id => exact .inr ⟨_, rfl, h, fun _ => rfl⟩
  | addLink id l => exact .inr ⟨_, rfl, h, fun _ => rfl⟩
  | setAutonumber b => exact .inr ⟨_, rfl, h, fun _ => rfl⟩
  | openBox heading line => exact .inr ⟨_, rfl, h, fun _ => rfl⟩
  | addMessage m => exact .inr ⟨_, rfl, h, fun _ => rfl⟩
  | addNote n => exact .inr ⟨_, rfl, h, fun _ => rfl⟩
  | startBlock kind label color line =>
    refine .inr ⟨_, rfl, ?_, fun _ => rfl⟩
    rw [given_of_tidy h.1, given_of_tidy h.2.1]
    exact h
  | addBranch label line =>
    unfold Operation.events
    cases hk : d.frames.branchKeyword with
    | error e => exact .inl ⟨rfl, rfl⟩
    | ok keyword => exact .inr ⟨_, rfl, by rw [given_of_tidy h]; exact h, fun _ => rfl⟩
  | close => exact .inr ⟨_, rfl, h, fun _ => rfl⟩
  | extendLabel text =>
    cases hf : d.frames.block?.isSome with
    | true => exact .inr ⟨.extend text, by simp [Operation.events, hf], h, fun _ => rfl⟩
    | false => exact .inl ⟨by simp [Operation.events, hf], rfl⟩
  | feed statement line => exact h.elim

namespace TidyRun

variable {d d' : Draft} {ops : List Operation}

/-- What tidy steps keep, a tidy run keeps. -/
theorem keep {I : Draft → Prop} (hI : ∀ {d e d'}, e.IsTidy d → Draft.Step d e d' → I d → I d')
    (hs : TidyRun d ops d') (hd : I d) : I d' := by
  induction hs with
  | nil => exact hd
  | cons ht h _ ih =>
    refine ih ?_
    have hsteps := Draft.steps_of_ok h
    rcases ht.events with ⟨he, -⟩ | ⟨e, he, hte, -⟩
    · rw [he] at hsteps
      generalize (Draft.apply _ _).draft = d1 at hsteps
      cases hsteps
      exact hd
    · rw [he, Draft.Steps.single_iff] at hsteps
      exact hI hte hsteps hd

/-- A participant is created as often as the operations say. -/
theorem creations (hs : TidyRun d ops d') (id : String) : d'.past.countP (Statement.createsId id) =
    d.past.countP (Statement.createsId id) + (ops.filterMap Operation.created?).count id := by
  induction hs with
  | nil => rfl
  | @cons d op a ops d' ht h _ ih =>
    have hsteps := (Draft.steps_of_ok h).creations id
    rw [ih, hsteps]
    rcases ht.events with ⟨he, hc⟩ | ⟨e, he, -, hc⟩
    · simp [he, hc]
    · have hcid := hc id
      rw [he, List.countP_singleton, hcid]
      cases hop : op.created? with
      | none => simp [hop]
      | some i =>
        rw [List.filterMap_cons_some hop, List.count_cons]
        by_cases hi : i = id
        · simp [hi]
          omega
        · simp [hi]

/-- What holds of every draft that tidy operations lead to. -/
structure Kept (d : Draft) : Prop extends d.Regular where
  tidy : d.IsTidy

theorem kept (hs : TidyRun {} ops d) : Kept d :=
  hs.keep (fun he h hd => { h.regular (h.fits_of_tidy he).isReal hd.toRegular with tidy := h.tidy he hd.aligned hd.tidy })
    { Draft.regular_empty with tidy := Draft.tidy_empty }

/-- A diagram assembled by tidy operations that create no participant twice and close every
block is written, in every layout, as a text that is read back without a report. The
timeline, the tree and the numbering are the same. The participants are the same up to
their order, but that all of them are declared if the layout says so. The boxes are the
same up to their order, each with its heading as it is read from its line, which is the
heading itself if its colour is one, and without the participants that the timeline
creates. -/
theorem round_trip (hs : TidyRun {} ops d) (hcreated : (ops.filterMap Operation.created?).Nodup)
    (hclosed : ∀ f ∈ d.frames, f.isBox = true) (layout : Layout) : ∃ text m,
      d.build.write layout = .ok text ∧ Diagram.read text false = .ok m ∧ m.diagnostics = [] ∧
      m.timeline = d.build.timeline ∧ m.statements = d.build.statements ∧ m.autonumber = d.build.autonumber ∧
      m.participants.Perm (d.build.participants.map (Diagram.readBack layout)) ∧
      m.boxes.Perm (d.build.boxes.map d.build.redrawn) ∧
      ∀ b ∈ d.build.boxes, b.IsPlain →
        d.build.redrawn b = { b with members := b.members.filter fun id => !d.build.creates id } := by
  have hd := hs.kept
  have hlegible := hd.tidy.legible (hd.tidy.separate hd.wellFormed hd.marked) hd.wellFormed hd.aligned hd.marked
  have hopen : openAfter d.past = [] := by
    have hblocks : d.frames.blocks = [] := List.filterMap_eq_nil_iff.2 fun f hf => by
      have : f.region = .box := by simpa [Frame.isBox] using hclosed f hf
      simp [this]
    simpa [hblocks] using hd.aligned.frames
  have hone : ∀ id, d.past.countP (Statement.createsId id) ≤ 1 := fun id => by
    rw [hs.creations]
    simpa using List.nodup_iff_count_le_one.1 hcreated id
  have hcast := Draft.build_cast hd.wellFormed hd.aligned hd.marked fun id => .inr (hone id)
  obtain ⟨text, r, hw, hr, hsteps, -⟩ := hlegible.write_read layout
  obtain ⟨hpast, hauto, hboxes⟩ := hlegible.replay hd.settled hopen layout hsteps
  rw [shown_reread hd.tidy.shown hd.aligned.history] at hpast
  have ha : r.Aligned := hsteps.aligned Draft.aligned_empty
  refine ⟨text, r.build, hw, hr, rfl, ?_, ?_, hauto, ?_, ?_, ?_⟩
  · rw [Draft.build, Draft.build, hd.aligned.timeline_congr ha hpast, Draft.nextOrder, hpast, Draft.nextOrder]
  · rw [Draft.build, Draft.build, hd.aligned.tree_congr ha hpast, Draft.nextOrder, hpast, Draft.nextOrder]
  · have hperm := hcast.participants_perm hlegible hd.settled hopen (Draft.build_orders hd.wellFormed hd.marked) layout hsteps
    refine hperm.trans (List.Perm.of_eq (List.map_congr_left fun p hp => ?_))
    have hlinks : p.links.map Link.reread = p.links.map (Link.standing Half.replaced) := by
      rw [(Draft.participant_build hd.wellFormed hd.marked hp).2]
      exact List.map_congr_left fun l hl => (hd.tidy.links p.id l hl).reread_eq
    rw [Diagram.relisted, Diagram.readBack, hlinks]
  · have hperm := (Diagram.boxes_perm hlegible.boxed layout).map fun e => d.build.redrawn e.1
    have hzip : d.build.boxes.zipIdx.map (fun e => d.build.redrawn e.1) = d.build.boxes.map d.build.redrawn := by
      have := congrArg (List.map d.build.redrawn) (List.zipIdx_map_fst 0 d.build.boxes)
      rwa [List.map_map] at this
    exact hzip ▸ (List.Perm.of_eq hboxes).trans hperm
  · intro b hb hplain
    rw [Diagram.redrawn, Box.readHeading_eq (hlegible.boxes b hb).trimmed hplain]

/-- A box, and a message in a block. -/
def greeting : List Operation := [
  .openBox { color := some "Aqua", label := some "Team" } none,
  .declare "A" .participant none,
  .close,
  .startBlock .loop (some "daily") none none,
  .addMessage { source := { id := "A", activates := true }, target := { id := "B" }, text := some "hi" },
  .close]

theorem greeting_run : TidyRun {} greeting (Draft.run {} greeting) := by
  have hsafe : IsSafe "A" ∧ IsSafe "B" := by
    constructor <;>
      exact ⟨by decide, by decide, by simp, fun ⟨l, h⟩ => by cases l <;> cases h <;> decide, by decide, by decide⟩
  have hlabel : ∀ l ∈ ["Aqua", "Team", "daily"], IsTidyLabel (some l) := by
    have : ∀ l ∈ ["Aqua", "Team", "daily"], l.toList ≠ [] ∧ OneLine l.toList ∧ Solid l.toList := by decide
    rintro l hl _ ⟨⟩
    exact ⟨(this l hl).1, (this l hl).2.2.tight, (this l hl).2.1⟩
  have hnone : IsTidyLabel none := nofun
  exact .cons ⟨hlabel _ (by decide), hlabel _ (by decide)⟩ rfl <| .cons ⟨hsafe.1, hnone⟩ rfl <| .cons trivial rfl <|
    .cons ⟨hlabel _ (by decide), hnone, rfl⟩ rfl <| .cons ⟨hsafe.1, hsafe.2, by decide⟩ rfl <| .cons trivial rfl .nil

theorem greeting_round_trip : (greeting.filterMap Operation.created?).Nodup ∧
    (∀ f ∈ (Draft.run {} greeting).frames, f.isBox = true) ∧ ∃ text m,
      (Draft.run {} greeting).build.write {} = .ok text ∧ Diagram.read text false = .ok m ∧ m.diagnostics = [] :=
  ⟨by decide, by decide,
    have ⟨text, m, hw, hr, hd, _⟩ := round_trip greeting_run (by decide) (by decide) {}
    ⟨text, m, hw, hr, hd⟩⟩

end TidyRun

end Lifeline
