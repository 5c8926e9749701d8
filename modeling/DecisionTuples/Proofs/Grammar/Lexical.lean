import DecisionTuples.Proofs.Grammar.Layout
import DecisionTuples.Proofs.Grammar.Spelling

/-!
# Where one token ends and the next begins

`Laid expect tokens text` says that the text consists of the tokens and of gaps between
them, and that every token ends where it stands: no name, numeral or sign goes on behind
it.  Which tokens may stand at a place depends only on the token before: behind a colon
there is a type, which ends with its last letter, and behind a minus sign the word for
infinity.

The tokens of a derivation are laid out so (`Spells.laid`).  Only the first character
behind a token matters to it, and neither a blank nor a slash goes on with a token.  So
layout can be put between two tokens (`Laid.insert`).
-/

namespace DecisionTuples

/-! ## Tokens before a text -/

/-- The tokens of fixed letters with which nothing goes on. -/
def marks : List (List Char) :=
  [['['], [']'], ['('], [')'], ['\x7b'], ['\x7d'], [','], [':'], ['-'], ['&', '&']]

/-- The types of variables, without a precision. -/
def typeWords : List (List Char) := [['b', 'o', 'o', 'l'], ['i', 'n', 't'], ['n', 'u', 'm']]

/-- What may be the next token. -/
inductive Expect where
  /-- The type behind a colon. -/
  | type
  /-- The word for infinity behind its sign. -/
  | infinity
  /-- Any token elsewhere. -/
  | any
  deriving DecidableEq

/-- What may be the next token behind a token of the given letters. -/
def Expect.after (letters : List Char) : Expect :=
  if letters = [':'] then .type else if letters = ['-'] then .infinity else .any

/-- The letters are a token, and it ends before the text behind it. -/
inductive Stands : Expect → List Char → List Char → Prop
  | mark {letters : List Char} (h : letters ∈ marks) (behind : List Char) :
      Stands .any letters behind
  | operator {letters behind : List Char} (h : IsComparison letters)
      (hend : letters ∈ [['<'], ['>']] → Avoids (· = '=') behind) : Stands .any letters behind
  | name {letters behind : List Char} (h : IsName letters) (hend : AtWordEnd behind) :
      Stands .any letters behind
  | number {letters behind : List Char} (h : IsSigned letters)
      (hend : Avoids (fun c => c.isDigit = true ∨ c = '.') behind) : Stands .any letters behind
  | type {letters : List Char} (h : letters ∈ typeWords) (behind : List Char) :
      Stands .type letters behind
  | infinity {behind : List Char} (hend : AtWordEnd behind) :
      Stands .infinity infinityWord behind

section

variable {e : Expect} {letters behind : List Char}

theorem IsComparison.opens (h : IsComparison letters) : Opens OperatorStart letters := by
  simp only [IsComparison, List.mem_cons, List.not_mem_nil, or_false] at h
  rcases h with rfl | rfl | rfl | rfl | rfl | rfl
  all_goals exact ⟨_, rfl, by decide⟩

/-- No gap is in front of a token, and no point. -/
theorem Stands.opens (h : Stands e letters behind) :
    Opens (fun c => Solid c ∧ c ≠ '.') letters := by
  cases h with
  | mark h _ =>
      have hmarks : ∀ mark ∈ marks, Opens (fun c => Solid c ∧ c ≠ '.') mark := by
        decide
      exact hmarks letters h
  | operator h _ =>
      refine h.opens.mono fun c hc => ⟨hc.solid, ?_⟩
      rintro rfl
      exact absurd hc (by decide)
  | name h _ =>
      refine h.opens.mono fun c hc => ⟨solid_of_isWordStart hc, ?_⟩
      rintro rfl
      exact absurd hc (by decide)
  | number h _ =>
      refine h.opens.mono fun c hc => ⟨hc.solid, ?_⟩
      rintro rfl
      exact absurd hc (by decide)
  | type h _ =>
      have htypes : ∀ word ∈ typeWords, Opens (fun c => Solid c ∧ c ≠ '.') word := by
        decide
      exact htypes letters h
  | infinity _ => exact ⟨'I', rfl, by decide⟩

theorem Stands.ne_nil (h : Stands e letters behind) : letters ≠ [] := by
  obtain ⟨c, tail, rfl, -⟩ := h.opens.exists_cons
  exact List.cons_ne_nil c tail

theorem Stands.skipGap_eq (h : Stands e letters behind) (rest : List Char) :
    skipGap (letters ++ rest) = letters ++ rest := by
  obtain ⟨c, tail, rfl, hc, -⟩ := h.opens.exists_cons
  exact hc.skipGap_cons _

/-! ## What matters behind a token -/

theorem Avoids.of_head {kind : Char → Prop} {behind' : List Char} (h : Avoids kind behind)
    (hkind : ∀ c, kind c → Solid c)
    (hhead : ∀ c ∈ behind'.head?, Solid c → c ∈ behind.head?) : Avoids kind behind' :=
  fun c hc hkindc => h c (hhead c hc (hkind c hkindc)) hkindc

theorem solid_of_isWordChar {c : Char} (h : isWordChar c = true) : Solid c :=
  solid_of_kind (by decide) h

theorem AtWordEnd.of_head {behind' : List Char} (h : AtWordEnd behind)
    (hhead : ∀ c ∈ behind'.head?, Solid c → c ∈ behind.head?) : AtWordEnd behind' := by
  have havoids : Avoids (fun c => isWordChar c = true) behind :=
    fun c hc => Bool.eq_false_iff.mp (h c hc)
  exact fun c hc => Bool.eq_false_iff.mpr
    (havoids.of_head (fun _ => solid_of_isWordChar) hhead c hc)

/-- A token still stands before another text, if that begins with the same character, or
with a blank or a slash, or is empty. -/
theorem Stands.of_head {behind' : List Char} (h : Stands e letters behind)
    (hhead : ∀ c ∈ behind'.head?, Solid c → c ∈ behind.head?) : Stands e letters behind' := by
  cases h with
  | mark h _ => exact .mark h behind'
  | operator h hend =>
      exact .operator h fun hletters => (hend hletters).of_head (forall_eq.mpr (by decide)) hhead
  | name h hend => exact .name h (hend.of_head hhead)
  | number h hend =>
      refine .number h (hend.of_head ?_ hhead)
      rintro c (hc | rfl)
      · exact solid_of_isDigit hc
      · decide
  | type h _ => exact .type h behind'
  | infinity hend => exact .infinity (hend.of_head hhead)

end

/-! ## Texts laid out of tokens -/

/-- The text consists of the tokens and of gaps between them. -/
inductive Laid : Expect → List Placed → List Char → Prop
  | nil : Laid .any [] []
  | cons {e : Expect} {token : Placed} {tokens : List Placed}
      (hstands : Stands e token.letters token.behind)
      (hrest : Laid (.after token.letters) tokens (skipGap token.behind)) :
      Laid e (token :: tokens) (token.letters ++ token.behind)

namespace Laid

variable {e : Expect} {tokens : List Placed} {text : List Char}

theorem head_cases (h : Laid e tokens text) :
    (tokens = [] ∧ text = []) ∨ Opens (fun c => Solid c ∧ c ≠ '.') text := by
  cases h with
  | nil => exact .inl ⟨rfl, rfl⟩
  | cons hstands _ =>
      obtain ⟨c, tail, hcons, hc⟩ := hstands.opens.exists_cons
      rw [hcons]
      exact .inr ⟨c, rfl, hc⟩

/-- Nothing is skipped in front of the first token. -/
theorem skipGap_eq (h : Laid e tokens text) : skipGap text = text := by
  cases h with
  | nil => rfl
  | cons hstands _ => exact hstands.skipGap_eq _

/-- No text of tokens goes on with a numeral. -/
theorem avoids_point {text : List Char} (h : Laid e tokens (skipGap text)) :
    Avoids (· = '.') text := by
  rintro c hc rfl
  obtain ⟨tail, rfl⟩ := List.head?_eq_some_iff.mp hc
  have hpoint : Solid '.' := by decide
  rw [hpoint.skipGap_cons] at h
  rcases h.head_cases with ⟨-, hnil⟩ | ⟨c, hc, -, hne⟩
  · cases hnil
  · cases hc
    exact hne rfl

/-- A gap before a token is layout. -/
theorem exists_layout {token : Placed} {tokens : List Placed} {text : List Char}
    (h : Laid e (token :: tokens) (skipGap text)) :
    ∃ layout, Layout layout ∧ text = layout ++ skipGap text := by
  refine (gap_skipGap text).exists_layout ?_
  rcases h.head_cases with ⟨hnil, -⟩ | hopens
  · cases hnil
  · exact hopens.mono fun _ => And.left

/-- Layout that is put between two tokens, or into the layout between them, leaves every
token as it is. -/
theorem insert (h : Laid e tokens text) {token : Placed} (htoken : token ∈ tokens)
    {before layout place : List Char} (hbefore : Layout before)
    (hbehind : token.behind = before ++ place) (hlayout : Layout layout) :
    ∃ front moved, text = front ++ place ∧ front ≠ [] ∧
      Laid e moved (front ++ (layout ++ place)) ∧
        moved.map Placed.letters = tokens.map Placed.letters := by
  induction h with
  | nil => cases htoken
  | @cons e first tokens hstands hrest ih =>
      rcases List.mem_cons.mp htoken with rfl | htoken
      · have hskip : skipGap (before ++ (layout ++ place)) = skipGap token.behind := by
          rw [hbehind, hbefore.skipGap_append, hbefore.skipGap_append, hlayout.skipGap_append]
        have hmoved : Stands e token.letters (before ++ (layout ++ place)) := by
          refine hstands.of_head fun c hc hsolid => ?_
          rw [hbehind]
          cases before with
          | cons d before => exact hc
          | nil =>
              cases layout with
              | nil => exact hc
              | cons d layout => exact absurd hsolid (hlayout.head_not_solid c hc)
        refine ⟨token.letters ++ before, ⟨token.letters, before ++ (layout ++ place)⟩ :: tokens,
          ?_, ?_, ?_, rfl⟩
        · rw [hbehind, List.append_assoc]
        · simp [hstands.ne_nil]
        · rw [List.append_assoc]
          exact .cons hmoved (hskip ▸ hrest)
      · obtain ⟨front, moved, htext, hfront, hlaid, hletters⟩ := ih htoken
        obtain ⟨other, tokens, rfl⟩ := List.exists_cons_of_ne_nil (List.ne_nil_of_mem htoken)
        obtain ⟨gap, hgap, hfirst⟩ := hrest.exists_layout
        have hskip : skipGap (gap ++ (front ++ (layout ++ place))) =
            front ++ (layout ++ place) := by
          rw [hgap.skipGap_append, hlaid.skipGap_eq]
        -- What is directly behind the first token begins as it did.
        have hmoved : Stands e first.letters (gap ++ (front ++ (layout ++ place))) := by
          refine hstands.of_head fun c hc _ => ?_
          rw [hfirst, htext]
          cases gap with
          | cons d gap => exact hc
          | nil =>
              obtain ⟨d, front, rfl⟩ := List.exists_cons_of_ne_nil hfront
              exact hc
        refine ⟨first.letters ++ (gap ++ front),
          ⟨first.letters, gap ++ (front ++ (layout ++ place))⟩ :: moved, ?_, ?_, ?_, ?_⟩
        · rw [hfirst, htext]
          simp only [List.append_assoc]
        · simp [hstands.ne_nil]
        · simp only [List.append_assoc]
          refine .cons hmoved ?_
          rw [hskip]
          exact hlaid
        · exact congrArg (first.letters :: ·) hletters

end Laid

/-! ## Longest spellings end where they stand -/

section

variable {language : List Char → Prop} {letters behind : List Char}

/-- The longest spelling does not go on with the next character. -/
theorem not_language_next (hmax : ∀ other, language other → other <+: letters ++ behind →
    other.length ≤ letters.length) {c : Char} (hc : c ∈ behind.head?) :
    ¬ language (letters ++ [c]) := by
  intro hnext
  obtain ⟨tail, rfl⟩ := List.head?_eq_some_iff.mp hc
  have hle := hmax _ hnext ⟨tail, by simp⟩
  rw [List.length_append, List.length_singleton] at hle
  omega

theorem IsName.next (h : IsName letters) {c : Char} (hc : isWordChar c = true) :
    IsName (letters ++ [c]) := by
  obtain ⟨d, tail, rfl, hd, htail⟩ := h
  refine ⟨d, tail ++ [c], rfl, hd, ?_⟩
  rintro x hx
  rcases List.mem_append.mp hx with hx | hx
  · exact htail x hx
  · rw [List.mem_singleton.mp hx]
    exact hc

theorem IsDigits.next (h : IsDigits letters) {c : Char} (hc : c.isDigit = true) :
    IsDigits (letters ++ [c]) := by
  refine ⟨by simp, fun x hx => ?_⟩
  rcases List.mem_append.mp hx with hx | hx
  · exact h.2 x hx
  · rw [List.mem_singleton.mp hx]
    exact hc

theorem IsNumeral.next (h : IsNumeral letters) {c : Char} (hc : c.isDigit = true) :
    IsNumeral (letters ++ [c]) := by
  rcases h with hdigits | ⟨whole, fraction, rfl, hwhole, hfraction⟩
  · exact .inl (hdigits.next hc)
  · exact .inr ⟨whole, fraction ++ [c], by simp, hwhole, hfraction.next hc⟩

theorem IsSigned.next (h : IsSigned letters) {c : Char} (hc : c.isDigit = true) :
    IsSigned (letters ++ [c]) := by
  rcases h with hnumeral | ⟨numeral, rfl, hnumeral⟩
  · exact .inl (hnumeral.next hc)
  · exact .inr ⟨numeral ++ [c], rfl, hnumeral.next hc⟩

theorem stands_name (h : IsName letters) (hmax : ∀ other, IsName other →
    other <+: letters ++ behind → other.length ≤ letters.length) : Stands .any letters behind := by
  refine .name h fun c hc => ?_
  by_contra hword
  exact not_language_next hmax hc (h.next (Bool.not_eq_false _ ▸ hword))

theorem stands_numeral (h : IsSigned letters)
    (hnext : ∀ c, c.isDigit = true → language (letters ++ [c]))
    (hmax : ∀ other, language other → other <+: letters ++ behind →
      other.length ≤ letters.length)
    (hpoint : Avoids (· = '.') behind) : Stands .any letters behind := by
  refine .number h ?_
  rintro c hc (hdigit | hdot)
  · exact not_language_next hmax hc (hnext c hdigit)
  · exact hpoint c hc hdot

theorem stands_comparison (h : IsComparison letters) (hmax : ∀ other, IsComparison other →
    other <+: letters ++ behind → other.length ≤ letters.length) : Stands .any letters behind := by
  refine .operator h ?_
  rintro hletters c hc rfl
  refine not_language_next hmax hc ?_
  simp only [List.mem_cons, List.not_mem_nil, or_false] at hletters
  rcases hletters with rfl | rfl
  all_goals simp [IsComparison]

theorem IsEquality.isComparison (h : IsEquality letters) : IsComparison letters := by
  simp only [IsEquality, List.mem_cons, List.not_mem_nil, or_false] at h
  rcases h with rfl | rfl
  all_goals simp [IsComparison]

theorem stands_equality (h : IsEquality letters) (behind : List Char) :
    Stands .any letters behind := by
  refine .operator h.isComparison fun hletters => ?_
  simp only [IsEquality, List.mem_cons, List.not_mem_nil, or_false] at h
  rcases h with rfl | rfl
  all_goals exact absurd hletters (by decide)

end

theorem Expect.after_eq_any {letters : List Char} {kind : Char → Prop} (h : Opens kind letters)
    (hcolon : ¬ kind ':') (hminus : kind '-' → letters ≠ ['-']) : Expect.after letters = .any := by
  obtain ⟨c, tail, rfl, hc⟩ := h.exists_cons
  unfold after
  rw [if_neg, if_neg]
  · rintro heq
    cases heq
    exact hminus hc rfl
  · rintro heq
    cases heq
    exact hcolon hc

theorem IsName.after {letters : List Char} (h : IsName letters) : Expect.after letters = .any :=
  Expect.after_eq_any h.opens (by decide) fun hminus => absurd hminus (by decide)

theorem IsComparison.after {letters : List Char} (h : IsComparison letters) :
    Expect.after letters = .any :=
  Expect.after_eq_any h.opens (by decide) fun hminus => absurd hminus (by decide)

/-- A sign alone is not a number: a digit is behind it. -/
theorem IsSigned.ne_minus {letters : List Char} (h : IsSigned letters) : letters ≠ ['-'] := by
  rintro rfl
  rcases h with hnumeral | ⟨numeral, heq, hnumeral⟩
  · exact hnumeral.takeWhile_ne_nil (List.prefix_refl _) rfl
  · cases heq
    exact hnumeral.takeWhile_ne_nil (List.prefix_refl _) rfl

theorem IsSigned.after {letters : List Char} (h : IsSigned letters) :
    Expect.after letters = .any :=
  Expect.after_eq_any h.opens (by decide) fun _ => h.ne_minus

/-! ## The tokens of a derivation -/

/-- What a rule expects where it begins. -/
def Rule.expects : Rule → Expect
  | .boolType | .intType | .preciseType | .numType => .type
  | _ => .any

/-- The form begins where the first kind of token is expected, and behind it the second
kind is. -/
inductive Form.Lexical : Form → Expect → Expect → Prop
  | nothing (e : Expect) : Lexical .nothing e e
  | finish : Lexical .finish .any .any
  | mark {letters : List Char} (h : letters ∈ marks) :
      Lexical (.symbol letters) .any (.after letters)
  | type {letters : List Char} (h : letters ∈ typeWords) : Lexical (.symbol letters) .type .any
  | word {letters : List Char} (h : IsName letters) : Lexical (.word letters) .any .any
  | infinity : Lexical (.word infinityWord) .infinity .any
  | name : Lexical (.longest IsName) .any .any
  | precision : Lexical (.longest IsNumeral) .any .any
  | number : Lexical (.longest IsSigned) .any .any
  | equality : Lexical (.longest IsEquality) .any .any
  | comparison : Lexical (.longest IsComparison) .any .any
  | rule (name : Rule) : Lexical (.rule name) name.expects .any
  | sequence {first second : Form} {e middle e' : Expect} (hfirst : Lexical first e middle)
      (hsecond : Lexical second middle e') : Lexical (.sequence first second) e e'
  | choice {first second : Form} {e e' : Expect} (hfirst : Lexical first e e')
      (hsecond : Lexical second e e') : Lexical (.choice first second) e e'
  | repeated {form : Form} {e : Expect} (h : Lexical form e e) : Lexical (.repeated form) e e
  | optionally {form : Form} {e : Expect} (h : Lexical form e e) : Lexical (.optionally form) e e

/-- A token in front of a text laid out of tokens. -/
theorem Laid.token {e : Expect} {letters rest : List Char} {tokens : List Placed}
    (hstands : Stands e letters rest) (hrest : Laid (.after letters) tokens (skipGap rest)) :
    Laid e (⟨letters, rest⟩ :: tokens) (skipGap (letters ++ rest)) := by
  rw [hstands.skipGap_eq]
  exact .cons hstands hrest

namespace Form.Lexical

/-- A mark that is neither a colon nor a minus sign. -/
theorem plain {letters : List Char} (h : letters ∈ marks) (hafter : Expect.after letters = .any) :
    Lexical (.symbol letters) .any .any :=
  hafter ▸ mark h

theorem guard : Form.guard.Lexical .any .any :=
  .sequence (plain (by decide) rfl) (.sequence (.rule .conditions) (plain (by decide) rfl))

theorem block : Form.block.Lexical .any .any :=
  .sequence (plain (by decide) rfl)
    (.sequence (.repeated (.rule .decision)) (plain (by decide) rfl))

theorem condition : Form.condition.Lexical .any .any :=
  .choice (.rule .truthFirst) (.choice (.rule .truthLast) (.choice (.rule .numberFirst)
    (.choice (.rule .numberLast) (.rule .membership))))

theorem item : Form.item.Lexical .any .any :=
  .choice (.rule .declaration) (.choice (.rule .decision) (.rule .feature))

end Form.Lexical

theorem isName_of_word {c : Char} {tail : List Char} (hc : isWordStart c = true)
    (htail : tail.all isWordChar = true) : IsName (c :: tail) :=
  ⟨c, tail, rfl, hc, List.all_eq_true.mp htail⟩

open Form.Lexical in
/-- Each rule stands for a form that begins and ends as the rule does. -/
theorem Rule.lexical (name : Rule) : name.form.Lexical name.expects .any := by
  cases name with
  | endOfInput => exact .finish
  | file => exact .sequence (.nothing .any) (.sequence (.rule .feature) (.rule .endOfInput))
  | feature =>
      exact .sequence (plain (by decide) rfl)
        (.sequence (.sequence item (.repeated item)) (plain (by decide) rfl))
  | declaration =>
      exact .sequence (.rule .varWord) (.sequence (.rule .variableName)
        (.sequence (.mark (by decide)) (.choice (.rule .boolType) (.choice (.rule .intType)
          (.choice (.rule .preciseType) (.rule .numType))))))
  | boolType => exact .type (by decide)
  | intType => exact .type (by decide)
  | preciseType =>
      exact .sequence (.type (by decide)) (.sequence (plain (by decide) rfl)
        (.sequence (.rule .precision) (plain (by decide) rfl)))
  | numType => exact .type (by decide)
  | decision =>
      exact .sequence (.rule .ifWord) (.sequence guard (.sequence (.optionally (.rule .body))
        (.sequence (.repeated (.rule .alternative)) (.optionally (.rule .closing)))))
  | body => exact block
  | alternative =>
      exact .sequence (.rule .elseWord) (.sequence (.rule .ifWord)
        (.sequence guard (.optionally (.rule .body))))
  | closing => exact .sequence (.rule .elseWord) block
  | conditions =>
      exact .sequence condition (.repeated (.sequence (plain (by decide) rfl) condition))
  | truthFirst =>
      exact .sequence (.rule .truthValue) (.sequence (.rule .equality) (.rule .variableName))
  | truthLast =>
      exact .sequence (.rule .variableName) (.sequence (.rule .equality) (.rule .truthValue))
  | numberFirst =>
      exact .sequence (.rule .number) (.sequence (.rule .comparison) (.rule .variableName))
  | numberLast =>
      exact .sequence (.rule .variableName) (.sequence (.rule .comparison) (.rule .number))
  | membership =>
      exact .sequence (.rule .variableName) (.sequence (.rule .inWord) (.rule .interval))
  | interval =>
      exact .sequence (.rule .lowerBracket) (.sequence (.rule .number)
        (.sequence (plain (by decide) rfl) (.sequence (.rule .number) (.rule .upperBracket))))
  | lowerBracket => exact .choice (plain (by decide) rfl) (plain (by decide) rfl)
  | upperBracket => exact .choice (plain (by decide) rfl) (plain (by decide) rfl)
  | varWord => exact .word (isName_of_word (by decide) (by decide))
  | ifWord => exact .word (isName_of_word (by decide) (by decide))
  | elseWord => exact .word (isName_of_word (by decide) (by decide))
  | truthValue =>
      exact .choice (.word (isName_of_word (by decide) (by decide)))
        (.word (isName_of_word (by decide) (by decide)))
  | equality => exact .equality
  | comparison => exact .comparison
  | inWord => exact .word (isName_of_word (by decide) (by decide))
  | variableName => exact .name
  | precision => exact .precision
  | number =>
      exact .choice (.sequence (.mark (by decide)) .infinity)
        (.choice (.word isName_infinityWord) .number)

/-- The tokens of a derivation, in front of a text laid out of tokens. -/
theorem Spells.laid {form : Form} {text rest : List Char} {tokens : List Placed}
    (h : Spells form text rest tokens) {e e' : Expect} (hform : form.Lexical e e')
    {others : List Placed} (hrest : Laid e' others (skipGap rest)) :
    Laid e (tokens ++ others) (skipGap text) := by
  induction h generalizing e e' others with
  | nothing text =>
      cases hform
      exact hrest
  | finish =>
      cases hform
      exact hrest
  | symbol letters rest =>
      cases hform with
      | mark h => exact .token (.mark h rest) hrest
      | type h =>
          refine .token (.type h rest) ?_
          have hafter : ∀ word ∈ typeWords, Expect.after word = .any := by decide
          rw [hafter letters h]
          exact hrest
  | word letters hend =>
      cases hform with
      | word h => exact .token (.name h hend) (h.after ▸ hrest)
      | infinity => exact .token (.infinity hend) hrest
  | longest h hmax =>
      cases hform with
      | name => exact .token (stands_name h hmax) (h.after ▸ hrest)
      -- No token begins with a point, so a numeral ends before what follows it.
      | precision =>
          have hstands := stands_numeral (.inl h) (fun _ => h.next) hmax hrest.avoids_point
          exact .token hstands (IsSigned.after (.inl h) ▸ hrest)
      | number =>
          have hstands := stands_numeral h (fun _ => h.next) hmax hrest.avoids_point
          exact .token hstands (h.after ▸ hrest)
      | equality =>
          have hcomparison : IsComparison _ := h.isComparison
          exact .token (stands_equality h _) (hcomparison.after ▸ hrest)
      | comparison => exact .token (stands_comparison h hmax) (h.after ▸ hrest)
  | rule _ ih =>
      cases hform with
      | rule _ => exact ih (Rule.lexical _) hrest
  | sequence _ hgap _ ihfirst ihsecond =>
      cases hform with
      | sequence hfirst hsecond =>
          rw [List.append_assoc]
          refine ihfirst hfirst ?_
          rw [hgap.skipGap_eq]
          exact ihsecond hsecond hrest
  | left _ ih =>
      cases hform with
      | choice hfirst _ => exact ih hfirst hrest
  | right _ ih =>
      cases hform with
      | choice _ hsecond => exact ih hsecond hrest
  | stop text =>
      cases hform
      exact hrest
  | more _ hgap _ ihfirst ihrest =>
      cases hform with
      | repeated h =>
          rw [List.append_assoc]
          refine ihfirst h ?_
          rw [hgap.skipGap_eq]
          exact ihrest (.repeated h) hrest
  | absent text =>
      cases hform
      exact hrest
  | present _ ih =>
      cases hform with
      | optionally h => exact ih h hrest

/-- The tokens of a source are laid out behind the gap at its front. -/
theorem TokensOf.laid {source : List Char} {tokens : List Placed} (h : TokensOf source tokens) :
    Laid .any tokens (skipGap source) := by
  have hlaid := Spells.laid h (.rule .file) .nil
  rwa [List.append_nil] at hlaid

end DecisionTuples
