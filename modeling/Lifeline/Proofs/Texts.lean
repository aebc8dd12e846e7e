import Lifeline.Proofs.Names
/-!
# Texts of messages and notes

A text is kept in normal form, which neither escaping nor normalising again changes.
-/

namespace Lifeline

open Text

/-- A text in normal form. -/
def IsSaid (cs : List Char) : Prop := Tight cs ∧ OneLine cs

theorem markNewlines_eq {cs : List Char} (h : OneLine cs) : markNewlines cs = cs := by
  induction cs with
  | nil => rfl
  | cons c cs ih =>
    obtain ⟨hc, hcs⟩ := oneLine_cons.1 h
    have hr : c ≠ '\r' := by
      rintro rfl
      cases hc
    have hn : c ≠ '\n' := by
      rintro rfl
      cases hc
    rw [markNewlines.eq_3]
    · simp [hn, ih hcs]
    · rintro _ rfl
      exact absurd rfl hr

theorem markNewlines_ne_nil {cs : List Char} (h : cs ≠ []) : markNewlines cs ≠ [] := by
  cases cs using markNewlines.fun_cases with
  | case1 => exact absurd rfl h
  | case2 cs => simp [markNewlines, breakMark]
  | case3 c cs hne =>
    rw [markNewlines]
    · split <;> simp [breakMark]
    · exact hne

/-- A mark in the place of a newline is no blank either. -/
theorem markNewlines_ends (cs : List Char) : (∀ c ∈ (markNewlines cs).head?, c = '<' ∨ c ∈ cs.head?) ∧
    ∀ c ∈ (markNewlines cs).getLast?, c = '>' ∨ c ∈ cs.getLast? := by
  induction cs using markNewlines.induct with
  | case1 => simp [markNewlines]
  | case2 cs ih =>
    rw [markNewlines]
    constructor
    · rintro c ⟨⟩
      exact .inl rfl
    · intro c hc
      rw [List.getLast?_append, Option.mem_def, Option.or_eq_some_iff] at hc
      rcases hc with hc | ⟨-, hc⟩
      · refine (ih.2 c hc).imp_right fun h => ?_
        rw [Option.mem_def, List.getLast?_cons, List.getLast?_cons, Option.mem_def.1 h]
        rfl
      · exact .inl (by simpa [breakMark] using hc.symm)
  | case3 c cs hne ih =>
    rw [markNewlines]
    · constructor
      · intro d hd
        split at hd
        · cases hd
          exact .inl rfl
        · exact .inr hd
      · intro d hd
        rw [List.getLast?_append, Option.mem_def, Option.or_eq_some_iff] at hd
        rcases hd with hd | ⟨hnil, hd⟩
        · refine (ih.2 d hd).imp_right fun h => ?_
          rw [Option.mem_def, List.getLast?_cons, Option.mem_def.1 h]
          rfl
        · have hcs : cs = [] := Decidable.byContradiction fun h =>
            markNewlines_ne_nil h (List.getLast?_eq_none_iff.1 hnil)
          subst hcs
          split at hd
          · exact .inl (by simpa [breakMark] using hd.symm)
          · exact .inr hd
    · exact hne

theorem tight_markNewlines {cs : List Char} (h : Tight cs) : Tight (markNewlines cs) := by
  constructor
  · intro c hc
    rcases (markNewlines_ends cs).1 c hc with rfl | hc
    · rfl
    · exact h.1 c hc
  · intro c hc
    rcases (markNewlines_ends cs).2 c hc with rfl | hc
    · rfl
    · exact h.2 c hc

theorem tight_normalized (s : String) : Tight (Text.normalized s).toList := by
  rw [Text.normalized, String.toList_ofList]
  exact tight_markNewlines (tight_trim s.toList)

theorem IsSaid.normalized {s : String} (h : IsSaid s.toList) : Text.normalized s = s := by
  simp [Text.normalized, Text.normalize, h.1.trim_eq, markNewlines_eq h.2]

theorem escape_cases {cs : List Char} (h : OneLine cs) :
    escape cs = '"' :: (cs ++ ['"']) ∨ (escape cs = cs ∧ isQuoted cs = false) := by
  unfold escape
  rw [markNewlines_eq h]
  cases hq : needsQuotes cs with
  | true => exact .inl (if_pos hq)
  | false => exact .inr ⟨if_neg (by simp [hq]), (Bool.or_eq_false_iff.1 hq).2⟩

/-- Quotes that are put around a text are taken away again, and none are taken away that
were not put there. -/
theorem unescape_escape {cs : List Char} (h : OneLine cs) : unescape (escape cs) = cs := by
  unfold unescape
  rcases escape_cases h with he | ⟨he, hq⟩
  · have hl : ('"' :: (cs ++ ['"'])).getLast? = some '"' := by
      rw [← List.cons_append, List.getLast?_append]
      rfl
    simp [he, isQuoted, hl]
  · simp [he, hq]

theorem IsSaid.escape_label {cs : List Char} (h : IsSaid cs) (h0 : cs ≠ []) : IsLabel (escape cs) := by
  rcases escape_cases h.2 with he | ⟨he, -⟩
  · have hq : isLineBreak '"' = false := rfl
    have ht : Tight ['"'] := tight_singleton rfl
    rw [he]
    exact ⟨by simp, ht.append ht (by simp) (by simp) cs, by simp [h.2, hq]⟩
  · rw [he]
    exact ⟨h0, h.1, h.2⟩

/-- What follows the head of a line with a text. -/
def textTail : Option String → List Char
  | none => []
  | some text => if text = "" then [':'] else ':' :: ' ' :: escape text.toList

theorem textTail_of_ne {text : String} (h : text ≠ "") : textTail (some text) = ':' :: ' ' :: escape text.toList :=
  if_neg h

theorem withText_toList (head : String) (text : Option String) :
    (withText head text).toList = head.toList ++ textTail text := by
  cases text with
  | none => simp [withText, textTail]
  | some t => by_cases ht : t = "" <;> simp [withText, textTail, ht, Text.escaped]

theorem textAfterColon_tail {text : String} (h : IsSaid text.toList) :
    textAfterColon ((textTail (some text)).drop 1) = text := by
  by_cases ht : text = ""
  · subst ht
    rfl
  · have hl := h.escape_label (by simpa using ht)
    simp only [textTail_of_ne ht, List.drop_succ_cons, List.drop_zero, textAfterColon]
    rw [trim_cons_blank rfl, hl.tight.trim_eq, unescape_escape h.2, String.ofList_toList]

/-- A line with a text is tight and without a break if its head is. -/
theorem isLabel_withText {head : String} {t : Option String} (hh : IsLabel head.toList)
    (ht : ∀ s ∈ t, IsSaid s.toList) : IsLabel (withText head t).toList := by
  have hc : isLineBreak ':' = false := rfl
  have hb : isLineBreak ' ' = false := rfl
  rw [withText_toList]
  cases t with
  | none => simpa [textTail] using hh
  | some s =>
    by_cases h0 : s = ""
    · have hcolon : Tight [':'] := tight_singleton rfl
      subst h0
      exact ⟨by simp [textTail], hh.tight.append hcolon hh.ne_nil (by simp) [], by simp [textTail, hh.oneLine, hc]⟩
    · have hl := (ht s rfl).escape_label (by simpa using h0)
      rw [textTail_of_ne h0]
      exact ⟨by simp, hh.tight.append hl.tight hh.ne_nil hl.ne_nil [':', ' '], by simp [hh.oneLine, hl.oneLine, hc, hb]⟩

end Lifeline
