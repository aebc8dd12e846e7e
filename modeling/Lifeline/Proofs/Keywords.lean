import Lifeline.Statement.LineKind
/-!
# Lines with a keyword

The first word of a line decides its kind unless no keyword claims it. Only then is the
line looked at for a branch, an end or an arrow.
-/

namespace Lifeline

open Text

namespace LineKind

/-- Whether the first word of a line makes it a statement of a kind that comes before
branches. -/
def isClaimed (word rest : List Char) : Bool :=
  let keyword := String.ofList word
  let inner := splitWord rest
  (keyword == headerWord && rest.isEmpty) || (keyword == autonumberWord && rest.isEmpty) ||
    (declares keyword && !rest.isEmpty) ||
    (keyword == "create" && declares (String.ofList inner.1) && !inner.2.isEmpty) ||
    (keyword == "destroy" && !rest.isEmpty) || foldWord word == "note".toList ||
    ((keyword == "activate" || keyword == "deactivate") && !rest.isEmpty) ||
    ((keyword == "link" || keyword == "links") && rest.contains ':') ||
    (BlockKind.ofKeyword? keyword).isSome || keyword == "box"

/-- The kinds of lines that no keyword claims. -/
def unclaimed (line word : List Char) : LineKind :=
  if (BlockKind.ofBranchKeyword? (String.ofList word)).isSome then .branch
  else if line == endWord.toList then .close
  else if (Arrow.find? (messageHead line)).isSome then .message
  else .unknown

theorem ofWord_unclaimed {line word rest : List Char} (h : isClaimed word rest = false) :
    ofWord line word rest = .ok (unclaimed line word) := by
  simp only [isClaimed, Bool.or_eq_false_iff] at h
  obtain ⟨⟨⟨⟨⟨⟨⟨⟨⟨h1, h2⟩, h3⟩, h4⟩, h5⟩, h6⟩, h7⟩, h8⟩, h9⟩, h10⟩ := h
  simp only [ofWord, h1, h2, h3, h4, h5, h6, h7, h8, h9, h10, Bool.false_eq_true, if_false, unclaimed]
  split
  · rfl
  · split
    · rfl
    · split <;> rfl

/-- The kinds of lines that are left when no keyword claims a line. -/
def isLate (kind : LineKind) : Bool := kind == .branch || kind == .close || kind == .message

/-- A line of another kind was not claimed. -/
theorem skip {c : Bool} {early kind : LineKind} {r : Except LineError LineKind}
    (h : (if c then .ok early else r) = .ok kind) (hne : early ≠ kind) : c = false ∧ r = .ok kind := by
  cases c with
  | true => exact absurd (Except.ok.inj h) hne
  | false => exact ⟨rfl, h⟩

/-- A branch, an end and a message are lines that no keyword claims. -/
theorem eq_unclaimed {line word rest : List Char} {kind : LineKind} (h : ofWord line word rest = .ok kind)
    (hk : kind.isLate = true) : isClaimed word rest = false ∧ kind = unclaimed line word := by
  have hclaimed : isClaimed word rest = false := by
    have hlate (early : LineKind) (he : early.isLate = false) : early ≠ kind := by
      rintro rfl
      rw [hk] at he
      cases he
    have hnote : ∀ {r : Except LineError Placement}, r.map ofPlacement ≠ .ok kind := by
      rintro (e | p) hp
      · cases hp
      · obtain rfl := Except.ok.inj hp
        cases p <;> cases hk
    unfold ofWord at h
    obtain ⟨h1, h⟩ := skip h (hlate _ rfl)
    obtain ⟨h2, h⟩ := skip h (hlate _ rfl)
    obtain ⟨h3, h⟩ := skip h (hlate _ rfl)
    obtain ⟨h4, h⟩ := skip h (hlate _ rfl)
    obtain ⟨h5, h⟩ := skip h (hlate _ rfl)
    split at h
    · split at h
      · cases h
        cases hk
      · exact absurd h hnote
    · rename_i h6
      obtain ⟨h7, h⟩ := skip h (hlate _ rfl)
      obtain ⟨h8, h⟩ := skip h (hlate _ rfl)
      obtain ⟨h9, h⟩ := skip h (hlate _ rfl)
      obtain ⟨h10, h⟩ := skip h (hlate _ rfl)
      simp only [isClaimed, Bool.or_eq_false_iff]
      exact ⟨⟨⟨⟨⟨⟨⟨⟨⟨h1, h2⟩, h3⟩, h4⟩, h5⟩, by simpa using h6⟩, h7⟩, h8⟩, h9⟩, h10⟩
  rw [ofWord_unclaimed hclaimed] at h
  exact ⟨hclaimed, (Except.ok.inj h).symm⟩

/-- What a line of a kind is known to hold. -/
def Holds (line word : List Char) : LineKind → Prop
  | .noteLeft | .noteRight | .noteOver =>
    ∃ found placement, notePlacement? line = some found ∧ placementOf found = .ok placement
  | .blockStart => (BlockKind.ofKeyword? (String.ofList word)).isSome = true
  | .branch => (BlockKind.ofBranchKeyword? (String.ofList word)).isSome = true
  | _ => True

theorem Holds.pass {line word : List Char} {c : Bool} {early kind : LineKind} {r : Except LineError LineKind}
    (h : (if c then .ok early else r) = .ok kind) (hearly : c = true → early.Holds line word)
    (hr : r = .ok kind → kind.Holds line word) : kind.Holds line word := by
  cases c with
  | true => exact Except.ok.inj h ▸ hearly rfl
  | false => exact hr h

theorem holds_of_ofWord {line word rest : List Char} {kind : LineKind} (h : ofWord line word rest = .ok kind) :
    kind.Holds line word := by
  unfold ofWord at h
  refine .pass h (fun _ => trivial) fun h => ?_
  refine .pass h (fun _ => trivial) fun h => ?_
  refine .pass h (fun _ => trivial) fun h => ?_
  refine .pass h (fun _ => trivial) fun h => ?_
  refine .pass h (fun _ => trivial) fun h => ?_
  split at h
  · split at h
    · cases h
      trivial
    · rename_i found hfound
      cases hplace : placementOf found with
      | error e =>
        rw [hplace] at h
        cases h
      | ok placement =>
        rw [hplace] at h
        obtain rfl := Except.ok.inj h
        cases placement <;> exact ⟨found, _, hfound, hplace⟩
  · refine .pass h (fun _ => trivial) fun h => ?_
    refine .pass h (fun _ => trivial) fun h => ?_
    refine .pass h id fun h => ?_
    refine .pass h (fun _ => trivial) fun h => ?_
    refine .pass h id fun h => ?_
    refine .pass h (fun _ => trivial) fun h => ?_
    refine .pass h (fun _ => trivial) fun h => ?_
    cases h
    trivial

end LineKind

end Lifeline
