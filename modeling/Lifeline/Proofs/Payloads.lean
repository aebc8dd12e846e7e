import Mathlib.Data.List.TakeWhile
import Lifeline.Json.Reader
/-!
# What a payload is read from

What is left of a payload after a value is the end of it, and a whole number of too many
digits stands in the payload where it is refused.
-/

namespace Lifeline.Json

/-- Whether a text holds a run of that many digits, which are more than a whole number may
have. -/
def HoldsDigits (cs : List Char) (n : Nat) : Prop :=
  Text.maxDigits < n ∧ ∃ digits, digits <:+: cs ∧ digits.length = n ∧ ∀ c ∈ digits, c.isDigit = true

theorem HoldsDigits.of_suffix {cs ds : List Char} {n : Nat} (h : HoldsDigits ds n) (hs : ds <:+ cs) :
    HoldsDigits cs n := by
  obtain ⟨hn, digits, hd, hl, hall⟩ := h
  exact ⟨hn, digits, hd.trans hs.isInfix, hl, hall⟩

/-- What is left by a result is the end of the text, and the digits that it refuses stand in
the text. -/
def Result.Within {α : Type} {cs : List Char} : Result α cs → Prop
  | .ok c => c.rest <:+ cs
  | .error (.tooLong n) => HoldsDigits cs n
  | .error (.unmet _ _) => True

namespace Result.Within

variable {α β : Type} {cs ds : List Char} {r : Result α ds}

/-- A fault is passed on from the end of a text. -/
theorem fault (h : r.Within) {fault : Fault} (hr : r = .error fault) (hs : ds <:+ cs) :
    Within (.error fault : Result β cs) := by
  subst hr
  cases fault with
  | unmet => trivial
  | tooLong n => exact HoldsDigits.of_suffix h hs

/-- What is left of the end of a text is the end of the text. -/
theorem rest (h : r.Within) {c : Consumed α ds} (hr : r = .ok c) (hs : ds <:+ cs) : c.rest <:+ cs := by
  subst hr
  exact List.IsSuffix.trans h hs

end Result.Within

theorem skip_suffix (cs : List Char) : skip cs <:+ cs := List.dropWhile_suffix isSpace

theorem readCode_within (cs : List Char) : (readCode cs).Within := by
  unfold readCode
  have h (n : Nat) : cs.drop n <:+ 'u' :: cs := (List.drop_suffix n cs).trans (List.suffix_cons 'u' cs)
  split
  · split
    · trivial
    · dsimp only
      split
      · split
        · split
          · trivial
          · split <;> exact h _
        · exact h _
      · exact h _
  · trivial

theorem readString_within (opening cs : List Char) : (readString opening cs).Within := by
  have h (c : Char) (cs : List Char) : cs <:+ c :: cs := List.suffix_cons c cs
  fun_induction readString opening cs with
  | case1 => trivial
  | case2 rest => exact h _ _
  | case3 => trivial
  | case4 digits fault hcode => exact (readCode_within digits).fault hcode (h _ _)
  | case5 digits c rest hlt hcode fault htail ih =>
    exact ih.fault htail ((readCode_within digits).rest hcode (h _ _))
  | case6 digits c rest hlt hcode tail htail ih =>
    exact ih.rest htail ((readCode_within digits).rest hcode (h _ _))
  | case7 => trivial
  | case8 e rest he c hc fault htail ih => exact ih.fault htail ((h _ _).trans (h _ _))
  | case9 e rest he c hc tail htail ih => exact ih.rest htail ((h _ _).trans (h _ _))
  | case10 => trivial
  | case11 c rest hq hb hc fault htail ih => exact ih.fault htail (h _ _)
  | case12 c rest hq hb hc tail htail ih => exact ih.rest htail (h _ _)

/-! ## Numbers -/

theorem wholeDigits_digits (cs : List Char) : wholeDigits cs <+: cs ∧ ∀ c ∈ wholeDigits cs, c.isDigit = true := by
  cases cs with
  | nil => exact ⟨List.prefix_rfl, by simp [wholeDigits]⟩
  | cons c cs =>
    unfold wholeDigits
    split
    · rename_i d ds hcons
      obtain ⟨rfl, rfl⟩ := List.cons.inj hcons
      split
      · rename_i hc
        obtain rfl := beq_iff_eq.1 hc
        exact ⟨⟨cs, rfl⟩, fun d hd => List.mem_singleton.1 hd ▸ rfl⟩
      · exact ⟨List.takeWhile_prefix _, fun d hd => List.mem_takeWhile_imp hd⟩
    · exact ⟨List.nil_prefix, by simp⟩

theorem readNumber_within (start : List Char) : (readNumber start).Within := by
  unfold readNumber
  extract_lets negative signs whole fraction fractionLength length
  have hfinish (length : Nat) (value : Value) : (readNumber.finish start length value).Within := by
    unfold readNumber.finish
    -- No digit, a fraction, or a whole number, which alone can be too long.
    split
    · exact List.drop_suffix length start
    · trivial
  split
  · trivial
  · split
    · exact hfinish _ _
    · split
      · split
        · rename_i hlong
          obtain ⟨hstart, hdigits⟩ := wholeDigits_digits (start.drop signs)
          exact ⟨hlong, whole, hstart.isInfix.trans (List.drop_suffix signs start).isInfix, rfl, hdigits⟩
        · exact hfinish _ _
      · exact hfinish _ _

theorem readScalar_within (cs : List Char) : (readScalar cs).Within := by
  unfold readScalar
  split
  · split
    · exact List.drop_suffix _ cs
    · trivial
  · exact readNumber_within cs

/-! ## Values -/

mutual

theorem readValue_within (cs : List Char) : (readValue cs).Within := by
  generalize hcs : cs = whole
  unfold readValue
  -- Nothing, a string, members, items, or a scalar.
  split
  · trivial
  · rename_i rest
    split
    · rename_i fault hr
      exact (readString_within _ rest).fault hr (List.suffix_cons '"' rest)
    · rename_i s hr
      exact (readString_within _ rest).rest hr (List.suffix_cons '"' rest)
  · rename_i rest
    have hs := (skip_suffix rest).trans (List.suffix_cons '\x7b' rest)
    split
    · rename_i after heq
      exact (List.suffix_cons '\x7d' after).trans (heq ▸ hs)
    · have hw := readMembers_within (skip rest) []
      split
      · rename_i fault hr
        exact hw.fault hr hs
      · rename_i ms hr
        exact hw.rest hr hs
  · rename_i rest
    have hs := (skip_suffix rest).trans (List.suffix_cons '[' rest)
    split
    · rename_i after heq
      exact (List.suffix_cons ']' after).trans (heq ▸ hs)
    · have hw := readItems_within (skip rest)
      split
      · rename_i fault hr
        exact hw.fault hr hs
      · rename_i vs hr
        exact hw.rest hr hs
  · exact readScalar_within _
termination_by (cs.length, 0)
decreasing_by all_goals exact Prod.Lex.left _ _ (hcs ▸ Nat.lt_succ_of_le (length_skip_le _))

theorem readMembers_within (cs : List Char) (members : List Member) : (readMembers cs members).Within := by
  generalize hcs : cs = whole
  unfold readMembers
  -- A name, a colon, a value, and then the end of the members or more of them.
  split
  · rename_i rest
    have hrest := List.suffix_cons '"' rest
    split
    · rename_i fault hr
      exact (readString_within _ rest).fault hr hrest
    · rename_i name hr
      have hname := (skip_suffix name.rest).trans ((readString_within _ rest).rest hr List.suffix_rfl)
      split
      · rename_i afterColon heq
        have hcolon := (skip_suffix afterColon).trans ((List.suffix_cons ':' afterColon).trans (heq ▸ hname))
        have hv := readValue_within (skip afterColon)
        split
        · rename_i fault hr
          exact hv.fault hr (hcolon.trans hrest)
        · rename_i v hr
          have hvalue := (skip_suffix v.rest).trans (hv.rest hr hcolon)
          split
          · rename_i after heq
            exact (List.suffix_cons '\x7d' after).trans ((heq ▸ hvalue).trans hrest)
          · rename_i more heq
            have hmore := (skip_suffix more).trans ((List.suffix_cons ',' more).trans (heq ▸ hvalue))
            have hm := readMembers_within (skip more) (setMember members name.value v.value)
            dsimp only
            split
            · rename_i fault hr
              exact hm.fault hr (hmore.trans hrest)
            · rename_i ms hr
              exact hm.rest hr (hmore.trans hrest)
          · trivial
      · trivial
  · trivial
termination_by (cs.length, 1)
decreasing_by
  · exact Prod.Lex.left _ _ (hcs ▸ Nat.lt_succ_of_le hcolon.length_le)
  · exact Prod.Lex.left _ _ (hcs ▸ Nat.lt_succ_of_le hmore.length_le)

theorem readItems_within (cs : List Char) : (readItems cs).Within := by
  unfold readItems
  have hv := readValue_within cs
  split
  · rename_i fault hr
    exact hv.fault hr List.suffix_rfl
  · rename_i v hr
    have hvalue := (skip_suffix v.rest).trans (hv.rest hr List.suffix_rfl)
    split
    · rename_i after heq
      exact (List.suffix_cons ']' after).trans (heq ▸ hvalue)
    · rename_i more heq
      have hmore := (skip_suffix more).trans ((List.suffix_cons ',' more).trans (heq ▸ hvalue))
      have hshort : (skip more).length < cs.length := by
        have hskip := length_skip_le v.rest
        have hlong := length_skip_le more
        rw [heq, List.length_cons] at hskip
        have := v.shorter
        omega
      have hi := readItems_within (skip more)
      split
      · rename_i fault hr
        exact hi.fault hr hmore
      · rename_i vs hr
        exact hi.rest hr hmore
    · trivial
termination_by (cs.length, 2)
decreasing_by
  · exact Prod.Lex.right _ (by decide)
  · exact Prod.Lex.left _ _ hshort

end

/-- A whole number of too many digits stands in the payload that it is refused in. -/
theorem holdsDigits_of_read {cs : List Char} {n : Nat} (h : read cs = .error (.tooLong n)) : HoldsDigits cs n := by
  have hw := readValue_within (skip cs)
  unfold read at h
  split at h
  · rename_i fault hr
    obtain rfl := Except.error.inj h
    rw [hr] at hw
    exact HoldsDigits.of_suffix hw (skip_suffix cs)
  · split at h <;> cases h

end Lifeline.Json
