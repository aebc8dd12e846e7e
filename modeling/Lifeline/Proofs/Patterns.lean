import Mathlib.Data.List.Forall2
import Lifeline.Proofs.Blanks
import Lifeline.Text.Pattern
/-!
# What the matchers do on a written line

A written line has one blank between its parts and none at the ends of them, so the
attempts of a matcher come down to one: blanks are taken at once, and as few characters
as possible are the whole part if nothing inside it looks like what follows it.
-/

namespace Lifeline.Text.Pattern

open Lifeline.Text

variable {α : Type}

theorem literal_append (ps : List Char) (next : Matcher α) (cs : List Char) :
    literal ps next (ps ++ cs) = next cs := by
  induction ps with
  | nil => cases cs <;> rfl
  | cons p ps ih => simpa [literal] using ih

theorem blanks_of_head {next : Matcher α} {cs : List Char} (h : ∀ c ∈ cs.head?, isBlank c = false) :
    blanks next cs = next cs := by
  cases cs with
  | nil => rfl
  | cons c cs => simp [blanks, h c (by simp)]

/-- One blank in front of what is no blank. -/
theorem blanks_cons {next : Matcher α} {c : Char} {cs : List Char} (hc : isBlank c = true)
    (h : ∀ d ∈ cs.head?, isBlank d = false) : blanks next (c :: cs) = (next cs).orElse fun _ => next (c :: cs) := by
  rw [blanks, if_pos hc, blanks_of_head h]

theorem blanks_isSome {next : Matcher α} {cs : List Char} (h : (next cs).isSome = true) : (blanks next cs).isSome = true := by
  cases cs with
  | nil => exact h
  | cons c cs =>
    rw [blanks]
    split
    · cases blanks next cs with
      | none => exact h
      | some a => rfl
    · exact h

theorem someBlanks_cons {n : Matcher α} {c : Char} {cs : List Char} (hc : isBlank c = true)
    (h : ∀ d ∈ cs.head?, isBlank d = false) : someBlanks n (c :: cs) = n cs := by
  rw [someBlanks, if_pos hc, blanks_of_head h]

theorem someBlanks_of_head {next : Matcher α} {cs : List Char} (h : ∀ c ∈ cs.head?, isBlank c = false) :
    someBlanks next cs = none := by
  cases cs with
  | nil => rfl
  | cons c cs => simp [someBlanks, h c (by simp)]

/-- Blanks are all taken before something that begins with none. -/
theorem blanks_eq {next : Matcher α} (h : ∀ c cs, isBlank c = true → next (c :: cs) = none) (cs : List Char) :
    blanks next cs = next (cs.dropWhile isBlank) := by
  induction cs with
  | nil => rfl
  | cons c cs ih =>
    cases hc : isBlank c with
    | false => simp [blanks, hc]
    | true => simp [blanks, hc, ih, h c cs hc]

theorem blanks_literal {p : Char} (hp : isBlank p = false) (ps : List Char) (next : Matcher α) (cs : List Char) :
    blanks (literal (p :: ps) next) cs = literal (p :: ps) next (cs.dropWhile isBlank) := by
  refine blanks_eq (fun c cs hc => ?_) cs
  have hne : c ≠ p := by
    rintro rfl
    simp [hc] at hp
  simp [literal, hne]

theorem literal_eq_none {p : Char} {ps : List Char} {next : Matcher α} {cs : List Char} (h : cs.head? ≠ some p) :
    literal (p :: ps) next cs = none := by
  cases cs with
  | nil => rfl
  | cons c cs =>
    have hc : c ≠ p := fun hc => h (by simp [hc])
    simp [literal, hc]

/-- What stands before blanks and a character, and is not that character, is not taken
for it. -/
theorem blanks_literal_eq_none {p : Char} (hp : isBlank p = false) {ps : List Char} {next : Matcher α}
    {y : List Char} (hy : p ∉ y) (hl : ∀ c ∈ y.getLast?, isBlank c = false) (hy0 : y ≠ []) (rest : List Char) :
    blanks (literal (p :: ps) next) (y ++ rest) = none := by
  rw [blanks_literal hp]
  refine literal_eq_none ?_
  induction y with
  | nil => exact absurd rfl hy0
  | cons c y ih =>
    cases hc : isBlank c with
    | false => simpa [hc] using fun h : c = p => hy (by simp [h])
    | true =>
      have hy1 : y ≠ [] := by
        rintro rfl
        simp [hl c (by simp)] at hc
      have hl1 : ∀ c ∈ y.getLast?, isBlank c = false := by
        intro d hd
        refine hl d ?_
        rw [List.getLast?_cons, Option.mem_def.1 hd]
        rfl
      simpa [hc] using ih (fun h => hy (List.mem_cons_of_mem _ h)) hl1 hy1

/-- As few characters as possible are all of `taken` if nothing that begins in it looks
like what follows. -/
theorem shortest_append {ok : Char → Bool} {next : Matcher α} {taken rest : List Char} {a : α}
    (hok : ∀ c ∈ taken, ok c = true) (hnext : next rest = some a)
    (hnone : ∀ x y, taken = x ++ y → y ≠ [] → next (y ++ rest) = none) :
    shortest ok next (taken ++ rest) = some (taken, a) := by
  induction taken with
  | nil => cases rest <;> simp_all [shortest]
  | cons c taken ih =>
    have hc := hnone [] (c :: taken) rfl (by simp)
    rw [List.cons_append] at hc
    rw [List.cons_append, shortest, hc]
    simp [hok c (by simp), ih (fun d hd => hok d (by simp [hd])) fun x y hxy hy =>
      hnone (c :: x) y (by rw [hxy, List.cons_append]) hy]

/-- `shortest_append` where at least one character is taken. -/
theorem someShortest_append {ok : Char → Bool} (next : Matcher α) {taken rest : List Char} {a : α}
    (h0 : taken ≠ []) (hok : ∀ c ∈ taken, ok c = true) (hnext : next rest = some a)
    (hnone : ∀ x y, taken = x ++ y → x ≠ [] → y ≠ [] → next (y ++ rest) = none) :
    someShortest ok next (taken ++ rest) = some (taken, a) := by
  obtain ⟨c, taken, rfl⟩ := List.exists_cons_of_ne_nil h0
  rw [List.cons_append, someShortest, if_pos (hok c (by simp)),
    shortest_append (fun d hd => hok d (by simp [hd])) hnext fun x y hxy hy =>
      hnone (c :: x) y (by rw [hxy, List.cons_append]) (by simp) hy]
  rfl

/-- Nothing matches if nothing that can be left looks like what follows. -/
theorem shortest_eq_none {ok : Char → Bool} {next : Matcher α} {cs : List Char}
    (h : ∀ x y, cs = x ++ y → (∀ c ∈ x, ok c = true) → next y = none) : shortest ok next cs = none := by
  induction cs with
  | nil => simp [shortest, h [] [] rfl]
  | cons c cs ih =>
    have hnone := h [] (c :: cs) rfl (by simp)
    rw [shortest, hnone]
    cases hc : ok c with
    | false => rfl
    | true =>
      have ih := ih fun x y hxy hx => h (c :: x) y (by rw [hxy, List.cons_append]) (List.forall_mem_cons.2 ⟨hc, hx⟩)
      simp [ih]

theorem someShortest_eq_none {ok : Char → Bool} {next : Matcher α} {cs : List Char}
    (h : ∀ x y, cs = x ++ y → x ≠ [] → (∀ c ∈ x, ok c = true) → next y = none) : someShortest ok next cs = none := by
  cases cs with
  | nil => rfl
  | cons c cs =>
    rw [someShortest]
    cases hc : ok c with
    | false => rfl
    | true =>
      have hnone : shortest ok next cs = none := shortest_eq_none fun x y hxy hx =>
        h (c :: x) y (by rw [hxy, List.cons_append]) (by simp) (List.forall_mem_cons.2 ⟨hc, hx⟩)
      simp [hnone]

/-- Where something looks like what follows, no more than the characters before it is taken. -/
theorem shortest_le {ok : Char → Bool} {next : Matcher α} {x y : List Char} (hok : ∀ c ∈ x, ok c = true)
    (hy : (next y).isSome = true) : ∃ taken a, shortest ok next (x ++ y) = some (taken, a) ∧ taken.length ≤ x.length := by
  induction x with
  | nil =>
    obtain ⟨a, ha⟩ := Option.isSome_iff_exists.1 hy
    refine ⟨[], a, ?_, Nat.le_refl _⟩
    cases y <;> simp [shortest, ha]
  | cons c x ih =>
    obtain ⟨hc, hx⟩ := List.forall_mem_cons.1 hok
    rw [List.cons_append, shortest]
    cases hn : next (c :: (x ++ y)) with
    | some a => exact ⟨[], a, rfl, Nat.zero_le _⟩
    | none =>
      obtain ⟨taken, a, ht, hl⟩ := ih hx
      exact ⟨c :: taken, a, by simp [hc, ht], Nat.succ_le_succ hl⟩

theorem someShortest_le {ok : Char → Bool} {next : Matcher α} {c : Char} {x y : List Char}
    (hok : ∀ d ∈ c :: x, ok d = true) (hy : (next y).isSome = true) :
    ∃ taken a, someShortest ok next (c :: (x ++ y)) = some (c :: taken, a) ∧ taken.length ≤ x.length := by
  obtain ⟨hc, hx⟩ := List.forall_mem_cons.1 hok
  obtain ⟨taken, a, ht, hl⟩ := shortest_le hx hy
  exact ⟨taken, a, by rw [someShortest, if_pos hc, ht]; rfl, hl⟩

theorem ne_newline {cs : List Char} (h : OneLine cs) {c : Char} (hc : c ∈ cs) : c ≠ '\n' := by
  rintro rfl
  cases h _ hc

theorem restOfLine_eq {cs : List Char} (h : OneLine cs) : restOfLine cs = some cs := by
  induction cs with
  | nil => rfl
  | cons c cs ih =>
    have hc := ne_newline h (List.mem_cons_self)
    rw [restOfLine.eq_3 _ _ (by simp [hc])]
    simp [hc, ih (oneLine_cons.1 h).2]

theorem someRestOfLine_eq {cs : List Char} (h : OneLine cs) (h0 : cs ≠ []) : someRestOfLine cs = some cs := by
  simp [someRestOfLine, restOfLine_eq h, h0]

theorem endOfLine_eq_none {cs : List Char} (h : OneLine cs) (h0 : cs ≠ []) : endOfLine cs = none := by
  unfold endOfLine
  split
  · exact absurd rfl h0
  · cases (oneLine_cons.1 h).1
  · rfl

/-! ## Letters in any case -/

/-- Whether the characters of a word pass for given small letters one by one. -/
def Passes (letters word : List Char) : Prop := List.Forall₂ (fun letter c => passesFor letter c = true) letters word

theorem fold_of_isBlank {c : Char} (h : isBlank c = true) : fold c = c := by
  simp only [isBlank, Bool.or_eq_true, Bool.and_eq_true, decide_eq_true_eq, beq_iff_eq] at h
  unfold fold
  split
  · rename_i hc
    simp only [Bool.and_eq_true, decide_eq_true_eq] at hc
    have hc : 65 ≤ c.toNat ∧ c.toNat ≤ 90 := hc
    omega
  · split
    · rename_i hc
      obtain rfl := beq_iff_eq.1 hc
      revert h
      decide
    · rfl

/-- Of the letters only `i` and `s` have characters that pass for them without being one of
them in capital or small. -/
theorem passesFor_eq {letter : Char} (hi : letter ≠ 'i') (hs : letter ≠ 's') (c : Char) :
    passesFor letter c = (fold c == letter) := by
  have hi : (letter == 'i') = false := by simpa using hi
  have hs : (letter == 's') = false := by simpa using hs
  simp [passesFor, hi, hs]

theorem Passes.foldWord_eq {letters word : List Char} (h : Passes letters word) (hi : 'i' ∉ letters) (hs : 's' ∉ letters) :
    foldWord word = letters := by
  induction h with
  | nil => rfl
  | @cons letter c letters word hc h ih =>
    rw [passesFor_eq (fun he => hi (by simp [he])) (fun he => hs (by simp [he]))] at hc
    have := ih (fun hm => hi (List.mem_cons_of_mem letter hm)) fun hm => hs (List.mem_cons_of_mem letter hm)
    rw [← this, ← beq_iff_eq.1 hc]
    rfl

/-- What passes for letters is as solid as they are. -/
theorem Passes.solid {letters word : List Char} (h : Passes letters word) (hl : Solid letters) : Solid word := by
  induction h with
  | nil => exact hl
  | @cons letter c letters word hc h ih =>
    refine List.forall_mem_cons.2 ⟨?_, ih fun d hd => hl d (List.mem_cons_of_mem letter hd)⟩
    cases hb : isBlank c with
    | false => rfl
    | true =>
      have hletter := hl letter List.mem_cons_self
      unfold passesFor at hc
      rw [fold_of_isBlank hb] at hc
      simp only [Bool.or_eq_true, Bool.and_eq_true, beq_iff_eq] at hc
      rcases hc with (rfl | ⟨-, rfl | rfl⟩) | ⟨-, rfl⟩
      · exact hb.symm.trans hletter
      all_goals cases hb

/-! ## What a match has taken

Whatever a matcher does, the rest of the line that it hands on is the end of the line. -/

theorem of_literal {ps : List Char} {next : Matcher α} {cs : List Char} {a : α} (h : literal ps next cs = some a) :
    ∃ rest, cs = ps ++ rest ∧ next rest = some a := by
  induction ps generalizing cs with
  | nil => exact ⟨cs, rfl, by cases cs <;> exact h⟩
  | cons p ps ih =>
    cases cs with
    | nil => cases h
    | cons c cs =>
      unfold literal at h
      split at h
      · rename_i hc
        obtain ⟨rest, rfl, hr⟩ := ih h
        exact ⟨rest, by rw [beq_iff_eq.1 hc, List.cons_append], hr⟩
      · cases h

theorem of_caseless {ps : List Char} {next : List Char → Matcher α} {cs : List Char} {a : α}
    (h : caseless ps next cs = some a) : ∃ word rest, cs = word ++ rest ∧ Passes ps word ∧ next word rest = some a := by
  induction ps generalizing next cs with
  | nil => exact ⟨[], cs, rfl, .nil, by cases cs <;> exact h⟩
  | cons p ps ih =>
    cases cs with
    | nil => cases h
    | cons c cs =>
      unfold caseless at h
      split at h
      · rename_i hc
        obtain ⟨word, rest, rfl, hw, hr⟩ := ih h
        exact ⟨c :: word, rest, rfl, .cons hc hw, hr⟩
      · cases h

theorem of_blanks {next : Matcher α} {cs : List Char} {a : α} (h : blanks next cs = some a) :
    ∃ rest, rest <:+ cs ∧ next rest = some a := by
  induction cs with
  | nil => exact ⟨[], List.suffix_rfl, h⟩
  | cons c cs ih =>
    unfold blanks at h
    split at h
    · cases hb : blanks next cs with
      | none =>
        rw [hb] at h
        exact ⟨c :: cs, List.suffix_rfl, h⟩
      | some x =>
        rw [hb] at h
        obtain ⟨rest, hs, hr⟩ := ih (hb.trans h)
        exact ⟨rest, hs.trans (List.suffix_cons c cs), hr⟩
    · exact ⟨c :: cs, List.suffix_rfl, h⟩

theorem of_someBlanks {next : Matcher α} {cs : List Char} {a : α} (h : someBlanks next cs = some a) :
    ∃ rest, rest <:+ cs ∧ next rest = some a := by
  cases cs with
  | nil => cases h
  | cons c cs =>
    rw [someBlanks] at h
    split at h
    · obtain ⟨rest, hs, hr⟩ := of_blanks h
      exact ⟨rest, hs.trans (List.suffix_cons c cs), hr⟩
    · cases h

theorem of_shortest {ok : Char → Bool} {next : Matcher α} {cs taken : List Char} {a : α}
    (h : shortest ok next cs = some (taken, a)) : ∃ rest, cs = taken ++ rest ∧ next rest = some a := by
  induction cs generalizing taken with
  | nil =>
    obtain ⟨x, hx, he⟩ := Option.map_eq_some_iff.1 h
    cases he
    exact ⟨[], rfl, hx⟩
  | cons c cs ih =>
    unfold shortest at h
    split at h
    · rename_i x hx
      cases h
      exact ⟨c :: cs, rfl, hx⟩
    · split at h
      · obtain ⟨⟨taken', x⟩, hx, he⟩ := Option.map_eq_some_iff.1 h
        cases he
        obtain ⟨rest, rfl, hr⟩ := ih hx
        exact ⟨rest, rfl, hr⟩
      · cases h

theorem of_someShortest {ok : Char → Bool} {next : Matcher α} {cs taken : List Char} {a : α}
    (h : someShortest ok next cs = some (taken, a)) : ∃ rest, cs = taken ++ rest ∧ next rest = some a := by
  cases cs with
  | nil => cases h
  | cons c cs =>
    rw [someShortest] at h
    split at h
    · obtain ⟨⟨taken', x⟩, hx, he⟩ := Option.map_eq_some_iff.1 h
      cases he
      obtain ⟨rest, rfl, hr⟩ := of_shortest hx
      exact ⟨rest, rfl, hr⟩
    · cases h

theorem ne_nil_of_someShortest {ok : Char → Bool} {next : Matcher α} {cs taken : List Char} {a : α}
    (h : someShortest ok next cs = some (taken, a)) : taken ≠ [] := by
  cases cs with
  | nil => cases h
  | cons c cs =>
    rw [someShortest] at h
    split at h
    · obtain ⟨x, -, he⟩ := Option.map_eq_some_iff.1 h
      cases he
      simp
    · cases h

/-- What was taken was as little as possible. -/
theorem none_of_shortest {ok : Char → Bool} {next : Matcher α} {taken rest : List Char} {a : α}
    (h : shortest ok next (taken ++ rest) = some (taken, a)) {x y : List Char} (he : taken = x ++ y) (hy : y ≠ []) :
    next (y ++ rest) = none := by
  induction x generalizing taken with
  | nil =>
    obtain ⟨c, y, rfl⟩ := List.exists_cons_of_ne_nil hy
    subst he
    rw [List.nil_append, List.cons_append, shortest] at h
    split at h
    · cases h
    · assumption
  | cons c x ih =>
    subst he
    rw [List.cons_append, List.cons_append, shortest] at h
    split at h
    · cases h
    · split at h
      · obtain ⟨⟨taken, b⟩, hs, hb⟩ := Option.map_eq_some_iff.1 h
        cases hb
        exact ih hs rfl
      · cases h

theorem none_of_someShortest {ok : Char → Bool} {next : Matcher α} {taken rest : List Char} {a : α}
    (h : someShortest ok next (taken ++ rest) = some (taken, a)) {x y : List Char} (he : taken = x ++ y) (hx : x ≠ [])
    (hy : y ≠ []) : next (y ++ rest) = none := by
  obtain ⟨c, x, rfl⟩ := List.exists_cons_of_ne_nil hx
  subst he
  rw [List.cons_append, List.cons_append, someShortest] at h
  split at h
  · obtain ⟨⟨taken, b⟩, hs, hb⟩ := Option.map_eq_some_iff.1 h
    cases hb
    exact none_of_shortest hs rfl hy
  · cases h

end Lifeline.Text.Pattern
