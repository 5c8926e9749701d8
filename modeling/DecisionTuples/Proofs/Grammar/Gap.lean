import DecisionTuples.Grammar.Token
import Mathlib.Data.List.Infix

/-!
# What a gap is

`Gap text rest` says that what stands before `rest` in `text` is a run of blanks and
comments, however long.  A comment from `//` goes on to the end of its line, and a
comment from `/*` to the first `*/` behind it.

`skipGap` passes over such a run (`gap_skipGap`), and it passes over the longest one:
whatever part of a gap has been passed, skipping leads to the same place
(`Gap.skipGap_eq`).
-/

namespace DecisionTuples

/-- What stands before the second text is a run of blanks and comments. -/
inductive Gap : List Char → List Char → Prop
  | none (text : List Char) : Gap text text
  | blank {c : Char} {text rest : List Char} (hblank : isBlank c = true) (hrest : Gap text rest) :
      Gap (c :: text) rest
  | line (comment : List Char) {text rest : List Char} (hcomment : '\n' ∉ comment)
      (hend : ∀ c ∈ text.head?, c = '\n') (hrest : Gap text rest) :
      Gap ('/' :: '/' :: (comment ++ text)) rest
  | block (comment : List Char) {text rest : List Char} (hcomment : ¬ ['*', '/'] <:+: comment)
      (hrest : Gap text rest) : Gap ('/' :: '*' :: (comment ++ '*' :: '/' :: text)) rest

theorem isBlank_newline : isBlank '\n' = true := by decide

/-! ## Skipping passes over a gap -/

/-- A comment that is cut off at the front by a character is still not closed, if the
character does not close it. -/
theorem not_close_cons {c : Char} {comment rest : List Char} (hcomment : ¬ ['*', '/'] <:+: comment)
    (hc : ∀ tail, c = '*' → comment ++ '*' :: rest = '/' :: tail → False) :
    ¬ ['*', '/'] <:+: c :: comment := by
  rw [List.infix_cons_iff]
  rintro (hfront | hinfix)
  · obtain ⟨tail, htail⟩ := hfront
    cases htail
    exact hc _ rfl rfl
  · exact hcomment hinfix

theorem gap_skipGap_and :
    (∀ text, Gap text (skipGap text)) ∧
    (∀ text last, skipBlock? text = some last → ∃ comment rest,
      text = comment ++ '*' :: '/' :: rest ∧ ¬ ['*', '/'] <:+: comment ∧ Gap rest last) ∧
    (∀ text, ∃ comment rest, text = comment ++ rest ∧ '\n' ∉ comment ∧
      (∀ c ∈ rest.head?, c = '\n') ∧ Gap rest (skipLine text)) := by
  -- The three functions call each other, so what they pass over is said of all at once.
  apply skipGap.mutual_induct
  case case1 => exact .none []
  case case2 =>
      intro rest ih
      obtain ⟨comment, last, rfl, hcomment, hend, hgap⟩ := ih
      rw [skipGap]
      exact .line comment hcomment hend hgap
  case case3 =>
      intro rest ih
      rw [skipGap]
      cases hblock : skipBlock? rest with
      | none => exact .none _ -- a comment that is not closed is not passed over
      | some last =>
          obtain ⟨comment, text, rfl, hcomment, hgap⟩ := ih last hblock
          exact .block comment hcomment hgap
  case case4 =>
      intro c rest hline hblock hblank ih
      rw [skipGap.eq_4 c rest hline hblock, if_pos hblank]
      exact .blank hblank ih
  case case5 =>
      intro c rest hline hblock hblank
      rw [skipGap.eq_4 c rest hline hblock, if_neg hblank]
      exact .none _
  case case6 =>
      intro last h
      cases h
  case case7 =>
      intro rest ih last h
      cases h
      exact ⟨[], rest, rfl, by decide, ih⟩
  case case8 =>
      intro c rest hclose ih last h
      rw [skipBlock?.eq_3 c rest hclose] at h
      obtain ⟨comment, text, rfl, hcomment, hgap⟩ := ih last h
      exact ⟨c :: comment, text, rfl, not_close_cons hcomment hclose, hgap⟩
  case case9 => exact ⟨[], [], rfl, nofun, nofun, .none []⟩
  case case10 =>
      intro rest ih
      refine ⟨[], '\n' :: rest, rfl, nofun, ?_, .blank isBlank_newline ih⟩
      rintro c ⟨⟩
      rfl
  case case11 =>
      intro c rest hc ih
      obtain ⟨comment, text, rfl, hcomment, hend, hgap⟩ := ih
      rw [skipLine.eq_3 c _ hc]
      refine ⟨c :: comment, text, rfl, ?_, hend, hgap⟩
      rw [List.mem_cons, not_or]
      exact ⟨fun heq => hc heq.symm, hcomment⟩

/-- What skipping passes over is a gap. -/
theorem gap_skipGap (text : List Char) : Gap text (skipGap text) := gap_skipGap_and.1 text

/-! ## Skipping passes over the longest gap -/

theorem skipGap_blank {c : Char} (hblank : isBlank c = true) (text : List Char) :
    skipGap (c :: text) = skipGap text := by
  have hslash : c ≠ '/' := by
    rintro rfl
    exact absurd hblank (by decide)
  rw [skipGap.eq_4 c text (fun _ h => absurd h hslash) (fun _ h => absurd h hslash), if_pos hblank]

theorem skipLine_append {comment text : List Char} (hcomment : '\n' ∉ comment)
    (hend : ∀ c ∈ text.head?, c = '\n') : skipLine (comment ++ text) = skipGap text := by
  induction comment with
  | nil =>
      cases text with
      | nil => rfl
      | cons c text =>
          obtain rfl := hend c rfl
          rw [skipGap_blank isBlank_newline]
          rfl
  | cons c comment ih =>
      rw [List.mem_cons, not_or] at hcomment
      rw [List.cons_append, skipLine.eq_3 c _ fun h => hcomment.1 h.symm]
      exact ih hcomment.2

theorem skipBlock?_append {comment : List Char} (hcomment : ¬ ['*', '/'] <:+: comment)
    (text : List Char) : skipBlock? (comment ++ '*' :: '/' :: text) = some (skipGap text) := by
  induction comment with
  | nil => rfl
  | cons c comment ih =>
      rw [List.infix_cons_iff, not_or] at hcomment
      -- The comment does not close at this character, not even together with the end.
      have hc : ∀ rest, c = '*' → comment ++ '*' :: '/' :: text = '/' :: rest → False := by
        rintro rest rfl htext
        cases comment with
        | nil => cases htext
        | cons d comment =>
            cases htext
            exact hcomment.1 ⟨comment, rfl⟩
      rw [List.cons_append, skipBlock?.eq_3 c _ hc]
      exact ih hcomment.2

/-- Wherever one stands in a gap, skipping leads to its end. -/
theorem Gap.skipGap_eq {text rest : List Char} (h : Gap text rest) :
    skipGap text = skipGap rest := by
  induction h with
  | none text => rfl
  | blank hblank _ ih => rw [skipGap_blank hblank, ih]
  | line comment hcomment hend _ ih => rw [skipGap, skipLine_append hcomment hend, ih]
  | block comment hcomment _ ih => rw [skipGap, skipBlock?_append hcomment, Option.getD_some, ih]

@[simp] theorem skipGap_skipGap (text : List Char) : skipGap (skipGap text) = skipGap text :=
  (gap_skipGap text).skipGap_eq.symm

/-- A gap is passed over, and the text behind it stays as it is. -/
theorem Gap.suffix {text rest : List Char} (h : Gap text rest) : rest <:+ text := by
  induction h with
  | none text => exact List.suffix_rfl
  | blank _ _ ih => exact ih.trans (List.suffix_cons _ _)
  | line comment _ _ _ ih =>
      exact ih.trans ((List.suffix_append comment _).trans (List.suffix_append ['/', '/'] _))
  | @block comment text rest _ _ ih =>
      have hclose : text <:+ comment ++ '*' :: '/' :: text := ⟨comment ++ ['*', '/'], by simp⟩
      exact ih.trans (hclose.trans (List.suffix_append ['/', '*'] _))

theorem Gap.length_le {text rest : List Char} (h : Gap text rest) :
    rest.length ≤ text.length :=
  h.suffix.length_le

/-- The character begins neither a blank nor a comment. -/
def Solid (c : Char) : Prop := isBlank c = false ∧ c ≠ '/'

instance (c : Char) : Decidable (Solid c) := inferInstanceAs (Decidable (_ ∧ _))

/-- A text that begins with a solid character has no gap at its front. -/
theorem Solid.skipGap_cons {c : Char} (h : Solid c) (text : List Char) :
    skipGap (c :: text) = c :: text := by
  rw [skipGap.eq_4 c text (fun _ heq => absurd heq h.2) (fun _ heq => absurd heq h.2), h.1]
  rfl

end DecisionTuples
