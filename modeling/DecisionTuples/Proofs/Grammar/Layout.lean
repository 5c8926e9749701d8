import DecisionTuples.Proofs.Grammar.Form

/-!
# Layout and the places where it may stand

`Layout` is a run of blanks and complete comments: every comment between `/*` and `*/` is
closed, and every comment from `//` has the end of its line.  A gap may also end inside a
comment, at the end of the text; layout never does, so it can stand before other text.

`Spells` derives a text as `Derives` does, and gives the list of the tokens besides, each
with all the text behind it.  A place in the text is `BetweenTokens` if nothing but layout
lies between the place and the token before it, or the start of the text: it is then next
to a token, or amid the layout between two of them.
-/

namespace DecisionTuples

/-! ## Layout -/

/-- A run of blanks and complete comments. -/
inductive Layout : List Char → Prop
  | none : Layout []
  | blank {c : Char} {rest : List Char} (hblank : isBlank c = true) (hrest : Layout rest) :
      Layout (c :: rest)
  | line (comment : List Char) {rest : List Char} (hcomment : '\n' ∉ comment)
      (hrest : Layout rest) : Layout ('/' :: '/' :: (comment ++ '\n' :: rest))
  | block (comment : List Char) {rest : List Char} (hcomment : ¬ ['*', '/'] <:+: comment)
      (hrest : Layout rest) : Layout ('/' :: '*' :: (comment ++ '*' :: '/' :: rest))

namespace Layout

variable {layout text rest : List Char}

/-- Layout is a gap, whatever text it stands before. -/
theorem gap (h : Layout layout) (text : List Char) : Gap (layout ++ text) text := by
  induction h with
  | none => exact .none text
  | blank hblank _ ih => exact .blank hblank ih
  | line comment hcomment _ ih =>
      rw [List.cons_append, List.cons_append, List.append_assoc]
      exact .line comment hcomment (by rintro c ⟨⟩; rfl) (.blank isBlank_newline ih)
  | block comment hcomment _ ih =>
      rw [List.cons_append, List.cons_append, List.append_assoc]
      exact .block comment hcomment ih

/-- Skipping passes over layout. -/
theorem skipGap_append (h : Layout layout) (text : List Char) :
    skipGap (layout ++ text) = skipGap text :=
  (h.gap text).skipGap_eq

/-- Layout begins with a blank or with the slash of a comment. -/
theorem head_not_solid (h : Layout layout) : ∀ c ∈ layout.head?, ¬ Solid c := by
  cases h with
  | none => nofun
  | blank hblank _ =>
      rintro c ⟨⟩ hsolid
      rw [hsolid.1] at hblank
      cases hblank
  | line comment _ _ =>
      rintro c ⟨⟩
      decide
  | block comment _ _ =>
      rintro c ⟨⟩
      decide

end Layout

/-- A gap before a solid character is layout: no comment can end otherwise than with its
line. -/
theorem Gap.exists_layout {text rest : List Char} (h : Gap text rest)
    (hrest : ∃ c ∈ rest.head?, Solid c) : ∃ layout, Layout layout ∧ text = layout ++ rest := by
  induction h with
  | none text => exact ⟨[], .none, rfl⟩
  | blank hblank _ ih =>
      obtain ⟨layout, hlayout, rfl⟩ := ih hrest
      exact ⟨_ :: layout, .blank hblank hlayout, rfl⟩
  | block comment hcomment _ ih =>
      obtain ⟨layout, hlayout, rfl⟩ := ih hrest
      exact ⟨_, .block comment hcomment hlayout, by simp⟩
  | line comment hcomment hend _ ih =>
      obtain ⟨layout, hlayout, rfl⟩ := ih hrest
      obtain ⟨c, hc, hsolid⟩ := hrest
      -- The end of the line is the first blank of the layout behind the comment.
      cases hlayout with
      | none =>
          obtain rfl := hend c hc
          exact absurd hsolid (by decide)
      | blank hblank hlayout =>
          obtain rfl := hend _ rfl
          exact ⟨_, .line comment hcomment hlayout, by simp⟩
      | line _ _ _ => exact absurd (hend '/' rfl) (by decide)
      | block _ _ _ => exact absurd (hend '/' rfl) (by decide)

/-! ## Tokens in their places -/

/-- A token and all the text behind it. -/
structure Placed where
  letters : List Char
  behind : List Char

/-- What stands before the second text is a word of the form, and these are its tokens. -/
inductive Spells : Form → List Char → List Char → List Placed → Prop
  | nothing (text : List Char) : Spells .nothing text text []
  | finish : Spells .finish [] [] []
  | symbol (letters rest : List Char) :
      Spells (.symbol letters) (letters ++ rest) rest [⟨letters, rest⟩]
  | word (letters : List Char) {rest : List Char} (hend : AtWordEnd rest) :
      Spells (.word letters) (letters ++ rest) rest [⟨letters, rest⟩]
  | longest {language : List Char → Prop} {letters rest : List Char} (h : language letters)
      (hmax : ∀ other, language other → other <+: letters ++ rest →
        other.length ≤ letters.length) :
      Spells (.longest language) (letters ++ rest) rest [⟨letters, rest⟩]
  | rule {name : Rule} {text rest : List Char} {tokens : List Placed}
      (h : Spells name.form text rest tokens) : Spells (.rule name) text rest tokens
  | sequence {first second : Form} {text middle next rest : List Char}
      {tokens others : List Placed} (hfirst : Spells first text middle tokens)
      (hgap : Gap middle next) (hsecond : Spells second next rest others) :
      Spells (.sequence first second) text rest (tokens ++ others)
  | left {first second : Form} {text rest : List Char} {tokens : List Placed}
      (h : Spells first text rest tokens) : Spells (.choice first second) text rest tokens
  | right {first second : Form} {text rest : List Char} {tokens : List Placed}
      (h : Spells second text rest tokens) : Spells (.choice first second) text rest tokens
  | stop {form : Form} (text : List Char) : Spells (.repeated form) text text []
  | more {form : Form} {text middle next rest : List Char} {tokens others : List Placed}
      (hfirst : Spells form text middle tokens) (hgap : Gap middle next)
      (hrest : Spells (.repeated form) next rest others) :
      Spells (.repeated form) text rest (tokens ++ others)
  | absent {form : Form} (text : List Char) : Spells (.optionally form) text text []
  | present {form : Form} {text rest : List Char} {tokens : List Placed}
      (h : Spells form text rest tokens) : Spells (.optionally form) text rest tokens

/-- What is derived consists of tokens. -/
theorem exists_spells_iff {form : Form} {text rest : List Char} :
    (∃ tokens, Spells form text rest tokens) ↔ Derives form text rest := by
  constructor
  · rintro ⟨tokens, h⟩
    induction h with
    | nothing text => exact .nothing text
    | finish => exact .finish
    | symbol letters rest => exact .symbol letters rest
    | word letters hend => exact .word letters hend
    | longest h hmax => exact .longest ⟨_, h, rfl, hmax⟩
    | rule _ ih => exact .rule ih
    | sequence _ hgap _ ihfirst ihsecond => exact .sequence ihfirst hgap ihsecond
    | left _ ih => exact .left ih
    | right _ ih => exact .right ih
    | stop text => exact .stop text
    | more _ hgap _ ihfirst ihrest => exact .more ihfirst hgap ihrest
    | absent text => exact .absent text
    | present _ ih => exact .present ih
  · intro h
    induction h with
    | nothing text => exact ⟨_, .nothing text⟩
    | finish => exact ⟨_, .finish⟩
    | symbol letters rest => exact ⟨_, .symbol letters rest⟩
    | word letters hend => exact ⟨_, .word letters hend⟩
    | longest h =>
        obtain ⟨letters, hletters, rfl, hmax⟩ := h
        exact ⟨_, .longest hletters hmax⟩
    | rule _ ih =>
        obtain ⟨tokens, h⟩ := ih
        exact ⟨tokens, .rule h⟩
    | sequence _ hgap _ ihfirst ihsecond =>
        obtain ⟨tokens, hfirst⟩ := ihfirst
        obtain ⟨others, hsecond⟩ := ihsecond
        exact ⟨tokens ++ others, .sequence hfirst hgap hsecond⟩
    | left _ ih =>
        obtain ⟨tokens, h⟩ := ih
        exact ⟨tokens, .left h⟩
    | right _ ih =>
        obtain ⟨tokens, h⟩ := ih
        exact ⟨tokens, .right h⟩
    | stop text => exact ⟨_, .stop text⟩
    | more _ hgap _ ihfirst ihrest =>
        obtain ⟨tokens, hfirst⟩ := ihfirst
        obtain ⟨others, hrest⟩ := ihrest
        exact ⟨tokens ++ others, .more hfirst hgap hrest⟩
    | absent text => exact ⟨_, .absent text⟩
    | present _ ih =>
        obtain ⟨tokens, h⟩ := ih
        exact ⟨tokens, .present h⟩

/-- The tokens of a source, in one of its derivations. -/
def TokensOf (source : List Char) (tokens : List Placed) : Prop :=
  Spells (.rule .file) source [] tokens

theorem exists_tokensOf_iff {source : List Char} :
    (∃ tokens, TokensOf source tokens) ↔ FollowsGrammar source :=
  exists_spells_iff

/-- Only layout lies between the place where the last text begins and the token before
it, or the start of the source. -/
def BetweenTokens (source : List Char) (tokens : List Placed) (place : List Char) : Prop :=
  ∃ layout, Layout layout ∧
    (source = layout ++ place ∨ ∃ token ∈ tokens, token.behind = layout ++ place)

end DecisionTuples
