import DecisionTuples.Proofs.Grammar.Recognition
import DecisionTuples.Proofs.Grammar.Writing

/-!
# Parsers on spaced tokens

A parser starts at the first of the tokens that are left, and stops in front of one of
them or at the end of the text.

* `Takes follow p tokens a`: in front of these tokens the parser gives the value and stops
  behind them, if the text goes on behind them with the property `follow`.
* `Refuses follow p tokens`: in front of these tokens the parser fails, under the same
  condition.

There is a rule for each combinator.  Choice needs to know that the first alternative
fails, repetition and optional parts that they fail on what follows.  A parser that
refuses the empty list of tokens fails on every text with the property `follow`.
-/

namespace DecisionTuples

/-! ## The text of tokens -/

/-- The text behind a token: a space before each further one. -/
def behind (tokens : List Token) : List Char := tokens.flatMap fun token => ' ' :: token

/-- Separated by one element, all lists but the first have it in front of them. -/
theorem intercalate_cons {α : Type} (separator : α) (first : List α) (rest : List (List α)) :
    [separator].intercalate (first :: rest) =
      first ++ rest.flatMap fun each => separator :: each := by
  induction rest generalizing first with
  | nil => rfl
  | cons second rest ih =>
      rw [List.intercalate_cons_cons, ih, List.flatMap_cons, List.append_assoc]
      rfl

theorem lay_cons (token : Token) (tokens : List Token) :
    lay (token :: tokens) = token ++ behind tokens :=
  intercalate_cons ' ' token tokens

theorem behind_cons (token : Token) (tokens : List Token) :
    behind (token :: tokens) = ' ' :: lay (token :: tokens) := by
  rw [lay_cons]
  rfl

/-- The space in front of a token is skipped. -/
theorem skipGap_behind (tokens : List Token) : skipGap (behind tokens) = skipGap (lay tokens) := by
  cases tokens with
  | nil => rfl
  | cons token tokens => rw [behind_cons, skipGap_blank (by decide)]

theorem skipGap_lay_cons {token : Token} (h : Opens Solid token) (tokens : List Token) :
    skipGap (lay (token :: tokens)) = token ++ behind tokens := by
  obtain ⟨c, tail, rfl, hsolid⟩ := h.exists_cons
  rw [lay_cons]
  exact hsolid.skipGap_cons _

/-- The text is over, or a space comes next. -/
def Ends (text : List Char) : Prop := text = [] ∨ ∃ tail, text = ' ' :: tail

theorem ends_behind (tokens : List Token) : Ends (behind tokens) := by
  cases tokens with
  | nil => exact .inl rfl
  | cons token tokens => exact .inr ⟨_, behind_cons token tokens⟩

/-- The spaces alone are as many as the tokens behind the first. -/
theorem length_le_behind (tokens : List Token) : tokens.length ≤ (behind tokens).length := by
  induction tokens with
  | nil => exact le_rfl
  | cons token tokens ih =>
      rw [behind_cons, lay_cons, List.length_cons, List.length_cons, List.length_append]
      omega

theorem length_le_lay (tokens : List Token) : tokens.length ≤ (lay tokens).length + 1 := by
  cases tokens with
  | nil => exact Nat.zero_le _
  | cons token tokens =>
      have hle := length_le_behind tokens
      rw [lay_cons, List.length_cons, List.length_append]
      omega

/-- The text of tokens is a part of the text behind a token. -/
theorem length_lay_le_behind (front tokens : List Token) :
    (lay tokens).length ≤ (behind (front ++ tokens)).length := by
  have happend : behind (front ++ tokens) = behind front ++ behind tokens := List.flatMap_append
  have hle : (lay tokens).length ≤ (behind tokens).length := by
    cases tokens with
    | nil => exact le_rfl
    | cons token tokens =>
        rw [behind_cons, List.length_cons]
        exact Nat.le_succ _
  rw [happend, List.length_append]
  omega

/-- There are tokens, and the first one begins with a character of the kind. -/
def Starts (kind : Char → Prop) (tokens : List Token) : Prop :=
  ∃ c tail rest, tokens = (c :: tail) :: rest ∧ kind c

namespace Starts

variable {kind kind' : Char → Prop} {tokens : List Token}

theorem mono (h : Starts kind tokens) (hkind : ∀ c, kind c → kind' c) : Starts kind' tokens := by
  obtain ⟨c, tail, rest, rfl, hc⟩ := h
  exact ⟨c, tail, rest, rfl, hkind c hc⟩

theorem of_opens {token : Token} (h : Opens kind token) : Starts kind (token :: tokens) := by
  obtain ⟨c, tail, rfl, hc⟩ := h.exists_cons
  exact ⟨c, tail, tokens, rfl, hc⟩

theorem append (h : Starts kind tokens) (others : List Token) : Starts kind (tokens ++ others) := by
  obtain ⟨c, tail, rest, rfl, hc⟩ := h
  exact ⟨c, tail, rest ++ others, rfl, hc⟩

/-- No gap is in front of tokens that begin with a solid character. -/
theorem skipGap_lay (h : Starts Solid tokens) : skipGap (lay tokens) = lay tokens := by
  obtain ⟨c, tail, rest, rfl, hc⟩ := h
  rw [skipGap_lay_cons ⟨c, rfl, hc⟩, lay_cons]

theorem opens (h : Starts kind tokens) (hsolid : ∀ c, kind c → Solid c) :
    Opens kind (skipGap (lay tokens)) := by
  rw [(h.mono hsolid).skipGap_lay]
  obtain ⟨c, tail, rest, rfl, hc⟩ := h
  rw [lay_cons]
  exact ⟨c, rfl, hc⟩

theorem avoids (h : Starts (fun c => Solid c ∧ ¬ kind c) tokens) :
    Avoids kind (skipGap (lay tokens)) :=
  (h.opens fun _ => And.left).avoids fun _ => And.right

/-- Tokens that begin with a solid character take at least this character. -/
theorem length_skipGap_lt (h : Starts Solid tokens) (rest : List Token) :
    (skipGap (lay rest)).length < (skipGap (lay (tokens ++ rest))).length := by
  rw [(h.append rest).skipGap_lay]
  obtain ⟨c, tail, others, rfl, hc⟩ := h
  have hrest : (skipGap (lay rest)).length ≤ (lay rest).length := (gap_skipGap _).length_le
  have hbehind := length_lay_le_behind others rest
  rw [List.cons_append, lay_cons, List.length_append, List.length_cons]
  omega

end Starts

namespace Parser

variable {α β : Type} {p q : Parser α} {follow between : List Char → Prop}
  {tokens others : List Token} {a : α}

/-! ## Taking tokens -/

/-- The parser reads the value from the tokens, and from nothing behind them. -/
def Takes (follow : List Char → Prop) (p : Parser α) (tokens : List Token) (a : α) : Prop :=
  ∀ rest, follow (skipGap (lay rest)) →
    p.run (skipGap (lay (tokens ++ rest))) = some (a, skipGap (lay rest))

/-- The parser reads nothing from the tokens. -/
def Refuses (follow : List Char → Prop) (p : Parser α) (tokens : List Token) : Prop :=
  ∀ rest, follow (skipGap (lay rest)) → p.run (skipGap (lay (tokens ++ rest))) = none

/-- A reader that stops at a space takes its token. -/
theorem Takes.lexeme {read : List Char → Option (α × List Char)} {token : Token}
    (hsolid : Opens Solid token)
    (hread : ∀ rest, Ends rest → read (token ++ rest) = some (a, rest)) :
    Takes follow (lexeme read) [token] a := by
  intro rest _
  rw [List.singleton_append, skipGap_lay_cons hsolid, Parser.lexeme, run_token,
    hread _ (ends_behind rest), ← skipGap_behind]
  rfl

theorem Takes.rule {name : Rule} (h : Takes follow p tokens a) :
    Takes follow (rule name p) tokens a := h

theorem Takes.mono {follow' : List Char → Prop} (h : Takes follow p tokens a)
    (hfollow : ∀ text, follow' text → follow text) : Takes follow' p tokens a :=
  fun rest hrest => h rest (hfollow _ hrest)

theorem Takes.bind {f : α → Parser β} {b : β} (hp : Takes between p tokens a)
    (hf : Takes follow (f a) others b)
    (hbetween : ∀ rest, follow (skipGap (lay rest)) → between (skipGap (lay (others ++ rest)))) :
    Takes follow (p >>= f) (tokens ++ others) b := by
  intro rest hrest
  rw [run_bind, List.append_assoc, hp _ (hbetween rest hrest), Option.bind_some]
  exact hf rest hrest

/-- The special case in which it does not matter what follows the first tokens. -/
theorem Takes.then {f : α → Parser β} {b : β} (hp : Takes Anyhow p tokens a)
    (hf : Takes follow (f a) others b) : Takes follow (p >>= f) (tokens ++ others) b :=
  hp.bind hf fun _ _ => trivial

theorem Takes.map (hp : Takes follow p tokens a) (g : α → β) :
    Takes follow (p >>= fun a => pure (g a)) tokens (g a) := by
  intro rest hrest
  rw [run_bind, hp rest hrest]
  rfl

theorem Takes.left (hp : Takes follow p tokens a) (q : Parser α) :
    Takes follow (orElse p q) tokens a := by
  intro rest hrest
  rw [run_orElse, hp rest hrest, Option.some_or]

theorem Takes.right (hp : Refuses follow p tokens) (hq : Takes follow q tokens a) :
    Takes follow (orElse p q) tokens a := by
  intro rest hrest
  rw [run_orElse, hp rest hrest, Option.none_or]
  exact hq rest hrest

theorem Takes.present (hp : Takes follow p tokens a) :
    Takes follow (optional p) tokens (some a) := by
  intro rest hrest
  unfold Parser.optional
  dsimp only
  rw [hp rest hrest]

theorem Takes.absent (hp : Refuses follow p []) : Takes follow (optional p) [] none := by
  intro rest hrest
  unfold Parser.optional
  dsimp only
  rw [hp rest hrest]
  rfl

section

variable {kind : Char → Prop} {elements : List β} {write : β → List Token} {value : β → α}

/-- Behind one of the elements there is another one, or what follows them all. -/
theorem between_elements (hstart : ∀ x ∈ elements, Starts kind (write x))
    (hsolid : ∀ c, kind c → Solid c) (hagain : ∀ text, Opens kind text → between text)
    (hend : ∀ text, follow text → between text) {rest : List Token}
    (hrest : follow (skipGap (lay rest))) :
    between (skipGap (lay (elements.flatMap write ++ rest))) := by
  cases elements with
  | nil => exact hend _ hrest
  | cons x elements =>
      have hfirst := hstart x List.mem_cons_self
      rw [List.flatMap_cons, List.append_assoc]
      exact hagain _ ((hfirst.append _).opens hsolid)

/-- Repeating reads all the elements, if it may be repeated often enough. -/
theorem runMany_elements (hp : ∀ x ∈ elements, Takes between p (write x) (value x))
    (hstart : ∀ x ∈ elements, Starts kind (write x)) (hsolid : ∀ c, kind c → Solid c)
    (hagain : ∀ text, Opens kind text → between text) (hend : ∀ text, follow text → between text)
    (hstop : Refuses follow p []) (times : Nat) {rest : List Token}
    (hrest : follow (skipGap (lay rest)))
    (htimes : (skipGap (lay (elements.flatMap write ++ rest))).length < times) :
    runMany p times (skipGap (lay (elements.flatMap write ++ rest))) =
      (elements.map value, skipGap (lay rest)) := by
  induction times generalizing elements with
  | zero => exact absurd htimes (Nat.not_lt_zero _)
  | succ times ih =>
      rw [runMany]
      cases elements with
      | nil =>
          have hnone := hstop rest hrest
          rw [List.nil_append] at hnone
          rw [List.flatMap_nil, List.nil_append, hnone]
          rfl
      | cons x elements =>
          obtain ⟨hfirst, hothers⟩ := List.forall_mem_cons.mp hp
          obtain ⟨hx, hstart⟩ := List.forall_mem_cons.mp hstart
          rw [List.flatMap_cons, List.append_assoc] at htimes ⊢
          rw [hfirst _ (between_elements hstart hsolid hagain hend hrest)]
          -- The element takes a character, so fewer of them are left to be read.
          have hless := (hx.mono hsolid).length_skipGap_lt (elements.flatMap write ++ rest)
          dsimp only
          rw [ih hothers hstart (by omega)]
          rfl

theorem Takes.many (hp : ∀ x ∈ elements, Takes between p (write x) (value x))
    (hstart : ∀ x ∈ elements, Starts kind (write x)) (hsolid : ∀ c, kind c → Solid c)
    (hagain : ∀ text, Opens kind text → between text) (hend : ∀ text, follow text → between text)
    (hstop : Refuses follow p []) :
    Takes follow (many p) (elements.flatMap write) (elements.map value) := by
  intro rest hrest
  exact congrArg some
    (runMany_elements hp hstart hsolid hagain hend hstop _ hrest (Nat.lt_succ_self _))

theorem Takes.many1 (hne : elements ≠ [])
    (hp : ∀ x ∈ elements, Takes between p (write x) (value x))
    (hstart : ∀ x ∈ elements, Starts kind (write x)) (hsolid : ∀ c, kind c → Solid c)
    (hagain : ∀ text, Opens kind text → between text) (hend : ∀ text, follow text → between text)
    (hstop : Refuses follow p []) :
    Takes follow (many1 p) (elements.flatMap write) (elements.map value) := by
  obtain ⟨x, elements, rfl⟩ := List.exists_cons_of_ne_nil hne
  obtain ⟨hfirst, hothers⟩ := List.forall_mem_cons.mp hp
  obtain ⟨-, hstart⟩ := List.forall_mem_cons.mp hstart
  rw [List.flatMap_cons, List.map_cons]
  exact hfirst.bind ((Takes.many hothers hstart hsolid hagain hend hstop).map _)
    fun _ hrest => between_elements hstart hsolid hagain hend hrest

end

/-! ## Refusing tokens -/

theorem Refuses.rule {name : Rule} (h : Refuses follow p tokens) :
    Refuses follow (rule name p) tokens := h

theorem Refuses.mono {follow' : List Char → Prop} (h : Refuses follow p tokens)
    (hfollow : ∀ text, follow' text → follow text) : Refuses follow' p tokens :=
  fun rest hrest => h rest (hfollow _ hrest)

/-- What fails on some tokens fails on more of them. -/
theorem Refuses.append (h : Refuses Anyhow p tokens) (others : List Token) :
    Refuses follow p (tokens ++ others) := by
  intro rest _
  rw [List.append_assoc]
  exact h (others ++ rest) trivial

/-- A reader that fails on its token, if a space is behind it. -/
theorem Refuses.lexeme {read : List Char → Option (α × List Char)} {token : Token}
    (hsolid : Opens Solid token) (hread : ∀ rest, Ends rest → read (token ++ rest) = none) :
    Refuses follow (lexeme read) (token :: tokens) := by
  intro rest _
  rw [List.cons_append, skipGap_lay_cons hsolid, Parser.lexeme, run_token,
    hread _ (ends_behind _)]
  rfl

/-- What fails at the beginning fails. -/
theorem Refuses.first {f : α → Parser β} (hp : Refuses follow p tokens) :
    Refuses follow (p >>= f) tokens := by
  intro rest hrest
  rw [run_bind, hp rest hrest]
  rfl

/-- What fails behind its first tokens fails. -/
theorem Refuses.second {f : α → Parser β} (hp : Takes Anyhow p tokens a)
    (hf : Refuses follow (f a) others) : Refuses follow (p >>= f) (tokens ++ others) := by
  intro rest hrest
  rw [run_bind, List.append_assoc, hp _ trivial, Option.bind_some]
  exact hf rest hrest

/-- A parser fails on a text that does not begin as its form does. -/
theorem Sound.stops {form : Form} {kind : Char → Prop} (hp : p.Sound form)
    (hform : form.Begins kind) : Refuses (Avoids kind) p [] :=
  fun _ hrest => hp.run_eq_none hform hrest

/-- A parser refuses tokens that do not begin as its form does. -/
theorem Sound.refuses {form : Form} {kind : Char → Prop} (hp : p.Sound form)
    (hform : form.Begins kind) (htokens : Starts (fun c => Solid c ∧ ¬ kind c) tokens) :
    Refuses follow p tokens :=
  fun rest _ => hp.run_eq_none hform (htokens.append rest).avoids

end Parser
end DecisionTuples
