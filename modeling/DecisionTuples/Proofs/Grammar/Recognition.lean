import DecisionTuples.Proofs.Grammar.Token

/-!
# Parsers that recognise a form

A parser starts where no gap is in front and stops behind the gap that follows what it
read.

* `Sound`: what the parser reads is a word of the form.
* `Complete`: wherever the form derives something, the parser succeeds and stops at the
  same place.

Choice, repetition and optional parts are greedy, so completeness depends on what comes
behind.  `Complete bound follow p form` speaks only of derivations behind which the text
has the property `follow`, on texts shorter than `bound`.  What has to be shown of
alternatives is that a first one that succeeds stops where the second would, and of
repetitions and optional parts that they fail on what follows.  Both come from the
characters with which forms begin.
-/

namespace DecisionTuples

/-! ## How forms begin -/

/-- Every word of the form begins with a character of the kind. -/
def Form.Begins (form : Form) (kind : Char → Prop) : Prop :=
  ∀ text last, Derives form text last →
    ∃ c tail, text = c :: tail ∧ kind c ∧ last.length ≤ tail.length

/-- The text begins with a character of the kind. -/
def Opens (kind : Char → Prop) (text : List Char) : Prop := ∃ c ∈ text.head?, kind c

/-- The text does not begin with a character of the kind. -/
def Avoids (kind : Char → Prop) (text : List Char) : Prop := ∀ c ∈ text.head?, ¬ kind c

section

variable {kind : Char → Prop} [DecidablePred kind]

instance : ∀ text, Decidable (Opens kind text)
  | [] => isFalse fun h => Option.not_mem_none _ h.choose_spec.1
  | c :: _ => decidable_of_iff (kind c)
      ⟨fun h => ⟨c, rfl, h⟩, fun ⟨_, hc, h⟩ => (Option.some.inj hc).symm ▸ h⟩

instance : ∀ text, Decidable (Avoids kind text)
  | [] => isTrue fun _ h => absurd h (Option.not_mem_none _)
  | c :: _ => decidable_of_iff (¬ kind c)
      ⟨fun h _ hd => Option.some.inj hd ▸ h, fun h => h c rfl⟩

end

theorem Opens.exists_cons {kind : Char → Prop} {text : List Char} (h : Opens kind text) :
    ∃ c tail, text = c :: tail ∧ kind c := by
  obtain ⟨c, hc, hkind⟩ := h
  obtain ⟨tail, rfl⟩ := List.head?_eq_some_iff.mp hc
  exact ⟨c, tail, rfl, hkind⟩

theorem Opens.mono {kind kind' : Char → Prop} {text : List Char} (h : Opens kind text)
    (hkind : ∀ c, kind c → kind' c) : Opens kind' text := by
  obtain ⟨c, hc, hkindc⟩ := h
  exact ⟨c, hc, hkind c hkindc⟩

/-- What begins with one kind does not begin with another. -/
theorem Opens.avoids {kind kind' : Char → Prop} {text : List Char} (h : Opens kind text)
    (hkind : ∀ c, kind c → ¬ kind' c) : Avoids kind' text := by
  obtain ⟨c, hc, hkindc⟩ := h
  intro d hd
  obtain rfl := Option.mem_unique hc hd
  exact hkind c hkindc

namespace Form.Begins

variable {first second form : Form} {kind kind' : Char → Prop}

theorem mono (h : form.Begins kind) (hkind : ∀ c, kind c → kind' c) : form.Begins kind' := by
  intro text last hlast
  obtain ⟨c, tail, htext, hc, hlength⟩ := h text last hlast
  exact ⟨c, tail, htext, hkind c hc, hlength⟩

theorem symbol (c : Char) (letters : List Char) : (Form.symbol (c :: letters)).Begins (· = c) := by
  intro text last hlast
  obtain rfl := derives_symbol_iff.mp hlast
  exact ⟨c, letters ++ last, rfl, rfl, by simp⟩

theorem word (c : Char) (letters : List Char) : (Form.word (c :: letters)).Begins (· = c) := by
  intro text last hlast
  obtain ⟨rfl, -⟩ := derives_word_iff.mp hlast
  exact ⟨c, letters ++ last, rfl, rfl, by simp⟩

theorem longest {language : List Char → Prop}
    (h : ∀ spelling, language spelling → ∃ c tail, spelling = c :: tail ∧ kind c) :
    (Form.longest language).Begins kind := by
  intro text last hlast
  obtain ⟨spelling, hspelling, rfl, -⟩ := derives_longest_iff.mp hlast
  obtain ⟨c, tail, rfl, hc⟩ := h spelling hspelling
  exact ⟨c, tail ++ last, rfl, hc, by simp⟩

theorem rule {name : Rule} (h : name.form.Begins kind) : (Form.rule name).Begins kind :=
  fun text last hlast => h text last (derives_rule_iff.mp hlast)

theorem of_rule {name : Rule} (h : (Form.rule name).Begins kind) : name.form.Begins kind :=
  fun text last hlast => h text last (derives_rule_iff.mpr hlast)

theorem sequence (h : first.Begins kind) : (Form.sequence first second).Begins kind := by
  intro text last hlast
  obtain ⟨middle, next, hfirst, hgap, hsecond⟩ := derives_sequence_iff.mp hlast
  obtain ⟨c, tail, htext, hc, hlength⟩ := h text middle hfirst
  exact ⟨c, tail, htext, hc, hsecond.length_le.trans (hgap.length_le.trans hlength)⟩

theorem choice (h : first.Begins kind) (h' : second.Begins kind) :
    (Form.choice first second).Begins kind := by
  intro text last hlast
  rcases derives_choice_iff.mp hlast with hfirst | hsecond
  · exact h text last hfirst
  · exact h' text last hsecond

variable {text last : List Char}

/-- A word that begins with a solid character has no gap in front. -/
theorem skipGap_eq (h : form.Begins Solid) (hlast : Derives form text last) :
    skipGap text = text := by
  obtain ⟨c, tail, rfl, hc, -⟩ := h text last hlast
  exact hc.skipGap_cons tail

theorem length_lt (h : form.Begins kind) (hlast : Derives form text last) :
    last.length < text.length := by
  obtain ⟨c, tail, rfl, -, hlength⟩ := h text last hlast
  exact Nat.lt_succ_of_le hlength

theorem opens (h : form.Begins kind) (hsolid : ∀ c, kind c → Solid c)
    (hlast : Derives form text last) : Opens kind (skipGap text) := by
  rw [(h.mono hsolid).skipGap_eq hlast]
  obtain ⟨c, tail, rfl, hc, -⟩ := h text last hlast
  exact ⟨c, rfl, hc⟩

end Form.Begins

namespace Parser

variable {α β : Type} {p q : Parser α} {form first second : Form}

/-! ## Soundness -/

/-- What the parser reads is a word of the form, and it stops behind the gap that
follows. -/
def Sound (p : Parser α) (form : Form) : Prop :=
  ∀ text a rest, p.run (skipGap text) = some (a, rest) →
    ∃ last, Derives form (skipGap text) last ∧ rest = skipGap last

theorem Sound.lexeme {read : List Char → Option (α × List Char)} (h : Reads read form) :
    (lexeme read).Sound form := by
  intro text a rest hrun
  obtain ⟨⟨a', last⟩, hread, heq⟩ := Option.map_eq_some_iff.mp hrun
  cases heq
  exact ⟨last, (h _ last).mp ⟨a, hread⟩, rfl⟩

theorem Sound.rule {name : Rule} (h : p.Sound name.form) : (rule name p).Sound (.rule name) := by
  intro text a rest hrun
  obtain ⟨last, hlast, hrest⟩ := h text a rest hrun
  exact ⟨last, .rule hlast, hrest⟩

theorem Sound.fail : (fail : Parser α).Sound form := nofun

theorem Sound.bind {f : α → Parser β} (hp : p.Sound first) (hf : ∀ a, (f a).Sound second) :
    (p >>= f).Sound (.sequence first second) := by
  intro text b rest hrun
  rw [run_bind] at hrun
  obtain ⟨⟨a, between⟩, ha, hb⟩ := Option.bind_eq_some_iff.mp hrun
  obtain ⟨middle, hmiddle, rfl⟩ := hp text a between ha
  obtain ⟨last, hlast, hrest⟩ := hf a middle b rest hb
  exact ⟨last, .sequence hmiddle (gap_skipGap middle) hlast, hrest⟩

theorem Sound.map (hp : p.Sound form) (g : α → β) :
    (p >>= fun a => pure (g a)).Sound form := by
  intro text b rest hrun
  rw [run_bind] at hrun
  obtain ⟨⟨a, between⟩, ha, hb⟩ := Option.bind_eq_some_iff.mp hrun
  cases hb
  exact hp text a _ ha

theorem Sound.orElse (hp : p.Sound first) (hq : q.Sound second) :
    (orElse p q).Sound (.choice first second) := by
  intro text a rest hrun
  rw [run_orElse, Option.or_eq_some_iff] at hrun
  rcases hrun with hfirst | ⟨-, hsecond⟩
  · obtain ⟨last, hlast, hrest⟩ := hp text a rest hfirst
    exact ⟨last, .left hlast, hrest⟩
  · obtain ⟨last, hlast, hrest⟩ := hq text a rest hsecond
    exact ⟨last, .right hlast, hrest⟩

theorem Sound.optional (hp : p.Sound form) : (optional p).Sound (.optionally form) := by
  intro text found rest hrun
  unfold Parser.optional at hrun
  dsimp only at hrun
  split at hrun
  · next a _ ha =>
      cases hrun
      obtain ⟨last, hlast, hrest⟩ := hp text a rest ha
      exact ⟨last, .present hlast, hrest⟩
  · cases hrun
    exact ⟨skipGap text, .absent _, (skipGap_skipGap text).symm⟩

/-- Repeating reads words of the form as long as it can. -/
theorem Sound.runMany (hp : p.Sound form) (bound : Nat) (text : List Char) :
    ∃ last, Derives (.repeated form) (skipGap text) last ∧
      (runMany p bound (skipGap text)).2 = skipGap last := by
  induction bound generalizing text with
  | zero => exact ⟨skipGap text, .stop _, (skipGap_skipGap text).symm⟩
  | succ bound ih =>
      rw [Parser.runMany]
      split
      · exact ⟨skipGap text, .stop _, (skipGap_skipGap text).symm⟩
      · next a rest ha =>
          obtain ⟨middle, hmiddle, rfl⟩ := hp text a rest ha
          obtain ⟨last, hlast, hrest⟩ := ih middle
          exact ⟨last, .more hmiddle (gap_skipGap middle) hlast, hrest⟩

theorem Sound.many (hp : p.Sound form) : (many p).Sound (.repeated form) := by
  intro text as rest hrun
  obtain ⟨last, hlast, hrest⟩ := hp.runMany ((skipGap text).length + 1) text
  have heq := congrArg Prod.snd (Option.some_inj.mp hrun)
  exact ⟨last, hlast, heq.symm.trans hrest⟩

theorem Sound.many1 (hp : p.Sound form) : (many1 p).Sound (.repeated1 form) :=
  hp.bind fun _ => hp.many.map _

/-- On a text that does not begin as words of the form do, the parser fails. -/
theorem Sound.run_eq_none {kind : Char → Prop} (hp : p.Sound form) (hform : form.Begins kind)
    {text : List Char} (h : Avoids kind (skipGap text)) : p.run (skipGap text) = none := by
  rw [Option.eq_none_iff_forall_ne_some]
  rintro ⟨a, rest⟩ hrun
  obtain ⟨last, hlast, -⟩ := hp text a rest hrun
  obtain ⟨c, tail, htext, hc, -⟩ := hform _ last hlast
  rw [htext] at h
  exact h c rfl hc

/-! ## Completeness -/

/-- Wherever the form derives something and the text goes on as required, the parser
succeeds and stops behind the gap that follows. -/
def Complete (bound : Nat) (follow : List Char → Prop) (p : Parser α) (form : Form) : Prop :=
  ∀ text last, text.length < bound → Derives form text last → follow (skipGap last) →
    ∃ a, p.run (skipGap text) = some (a, skipGap last)

/-- No requirement on how the text goes on. -/
def Anyhow (_ : List Char) : Prop := True

section

variable {bound : Nat} {follow : List Char → Prop}

theorem Complete.lexeme {read : List Char → Option (α × List Char)} (h : Reads read form)
    (hform : form.Begins Solid) : Complete bound follow (lexeme read) form := by
  intro text last _ hlast _
  obtain ⟨a, ha⟩ := (h text last).mpr hlast
  refine ⟨a, ?_⟩
  rw [hform.skipGap_eq hlast, Parser.lexeme, run_token, ha]
  rfl

theorem Complete.rule {name : Rule} (h : Complete bound follow p name.form) :
    Complete bound follow (rule name p) (.rule name) :=
  fun text last hlength hlast hfollow => h text last hlength (derives_rule_iff.mp hlast) hfollow

theorem Complete.mono {follow' : List Char → Prop} (h : Complete bound follow p form)
    (hfollow : ∀ text, follow' text → follow text) : Complete bound follow' p form :=
  fun text last hlength hlast hlast' => h text last hlength hlast (hfollow _ hlast')

/-- A token with a name. -/
theorem Complete.named {name : Rule} {read : List Char → Option (α × List Char)}
    (h : Reads read name.form) (hform : (Form.rule name).Begins Solid) :
    Complete bound follow (Parser.rule name (Parser.lexeme read)) (.rule name) :=
  .rule (.lexeme h fun text last hlast => hform text last (.rule hlast))

/-- One parser and then another, where the second form says how the text goes on behind
the first, and what is left for it is shorter than its own bound. -/
theorem Complete.bind_of_lt {between : List Char → Prop} {bound' : Nat} {f : α → Parser β}
    (hp : Complete bound between p first) (hf : ∀ a, Complete bound' follow (f a) second)
    (hbetween : ∀ text last, Derives second text last → follow (skipGap last) →
      between (skipGap text))
    (hbound : ∀ text last, text.length < bound → Derives first text last → last.length < bound') :
    Complete bound follow (p >>= f) (.sequence first second) := by
  intro text last hlength hlast hfollow
  obtain ⟨middle, next, hfirst, hgap, hsecond⟩ := derives_sequence_iff.mp hlast
  -- The parser skips the whole gap, wherever the derivation takes it to end.
  have hskip : skipGap middle = skipGap next := hgap.skipGap_eq
  have hmiddle : between (skipGap middle) := by
    rw [hskip]
    exact hbetween next last hsecond hfollow
  obtain ⟨a, ha⟩ := hp text middle hlength hfirst hmiddle
  have hnext : next.length < bound' :=
    lt_of_le_of_lt hgap.length_le (hbound text middle hlength hfirst)
  obtain ⟨b, hb⟩ := hf a next last hnext hsecond hfollow
  refine ⟨b, ?_⟩
  rw [run_bind, ha, Option.bind_some, hskip]
  exact hb

/-- The special case of one bound for both. -/
theorem Complete.bind {between : List Char → Prop} {f : α → Parser β}
    (hp : Complete bound between p first) (hf : ∀ a, Complete bound follow (f a) second)
    (hbetween : ∀ text last, Derives second text last → follow (skipGap last) →
      between (skipGap text)) :
    Complete bound follow (p >>= f) (.sequence first second) :=
  hp.bind_of_lt hf hbetween fun _ _ hlength hfirst => lt_of_le_of_lt hfirst.length_le hlength

/-- The special case in which it does not matter what follows the first word. -/
theorem Complete.then {f : α → Parser β} (hp : Complete bound Anyhow p first)
    (hf : ∀ a, Complete bound follow (f a) second) :
    Complete bound follow (p >>= f) (.sequence first second) :=
  hp.bind hf fun _ _ _ _ => trivial

/-- The special case in which the first word takes at least one character. -/
theorem Complete.step {kind : Char → Prop} {f : α → Parser β}
    (hp : Complete (bound + 1) Anyhow p first) (hfirst : first.Begins kind)
    (hf : ∀ a, Complete bound follow (f a) second) :
    Complete (bound + 1) follow (p >>= f) (.sequence first second) := by
  refine hp.bind_of_lt hf (fun _ _ _ _ => trivial) fun text last hlength hlast => ?_
  have hless := hfirst.length_lt hlast
  omega

theorem Complete.map (hp : Complete bound follow p form) (g : α → β) :
    Complete bound follow (p >>= fun a => pure (g a)) form := by
  intro text last hlength hlast hfollow
  obtain ⟨a, ha⟩ := hp text last hlength hlast hfollow
  refine ⟨g a, ?_⟩
  rw [run_bind, ha]
  rfl

/-- The second of two alternatives is reached, unless the first one stops at the same
place. -/
theorem Complete.orElse (hp : Complete bound follow p first) (hq : Complete bound follow q second)
    (hagree : ∀ text last, Derives second text last → follow (skipGap last) →
      ∀ a rest, p.run (skipGap text) = some (a, rest) → rest = skipGap last) :
    Complete bound follow (orElse p q) (.choice first second) := by
  intro text last hlength hlast hfollow
  rw [run_orElse]
  rcases derives_choice_iff.mp hlast with hfirst | hsecond
  · obtain ⟨a, ha⟩ := hp text last hlength hfirst hfollow
    exact ⟨a, by rw [ha, Option.some_or]⟩
  · cases hrun : p.run (skipGap text) with
    | none => exact hq text last hlength hsecond hfollow
    | some result =>
        obtain ⟨a, rest⟩ := result
        rw [hagree text last hsecond hfollow a rest hrun]
        exact ⟨a, rfl⟩

/-- Alternatives that begin with different characters. -/
theorem Complete.orElse_of_disjoint {kind kind' : Char → Prop} (hp : Complete bound follow p first)
    (hq : Complete bound follow q second) (hsound : p.Sound first) (hfirst : first.Begins kind)
    (hsecond : second.Begins kind') (hsolid : ∀ c, kind' c → Solid c)
    (hdisjoint : ∀ c, kind' c → ¬ kind c) :
    Complete bound follow (Parser.orElse p q) (.choice first second) := by
  refine hp.orElse hq fun text last hlast _ a rest hrun => ?_
  rw [hsound.run_eq_none hfirst ((hsecond.opens hsolid hlast).avoids hdisjoint)]
    at hrun
  cases hrun

theorem Complete.optional (hp : Complete bound follow p form)
    (hstop : ∀ text, follow (skipGap text) → p.run (skipGap text) = none) :
    Complete bound follow (optional p) (.optionally form) := by
  intro text last hlength hlast hfollow
  unfold Parser.optional
  dsimp only
  rcases derives_optionally_iff.mp hlast with rfl | hpresent
  · rw [hstop text hfollow]
    exact ⟨none, rfl⟩
  · obtain ⟨a, ha⟩ := hp text last hlength hpresent hfollow
    rw [ha]
    exact ⟨some a, rfl⟩

/-- Behind a word that may be repeated there is another one or the end of the
repetition. -/
theorem follow_repeated {between : List Char → Prop}
    (hagain : ∀ text last, Derives form text last → between (skipGap text))
    (hend : ∀ text, follow (skipGap text) → between (skipGap text)) {text last : List Char}
    (hlast : Derives (.repeated form) text last) (hfollow : follow (skipGap last)) :
    between (skipGap text) := by
  rcases derives_repeated_iff.mp hlast with rfl | ⟨middle, next, hfirst, -, -⟩
  · exact hend text hfollow
  · exact hagain text middle hfirst

/-- Repeating passes over a whole derived repetition, if it may be repeated often
enough. -/
theorem Complete.runMany {between : List Char → Prop} (hp : Complete bound between p form)
    (hform : form.Begins Solid)
    (hstop : ∀ text, follow (skipGap text) → p.run (skipGap text) = none)
    (hagain : ∀ text last, Derives form text last → between (skipGap text))
    (hend : ∀ text, follow (skipGap text) → between (skipGap text)) (times : Nat)
    {text last : List Char} (hlength : text.length < bound)
    (htimes : (skipGap text).length < times) (hlast : Derives (.repeated form) text last)
    (hfollow : follow (skipGap last)) :
    (Parser.runMany p times (skipGap text)).2 = skipGap last := by
  induction times generalizing text with
  | zero => exact absurd htimes (Nat.not_lt_zero _)
  | succ times ih =>
      rw [Parser.runMany]
      rcases derives_repeated_iff.mp hlast with rfl | ⟨middle, next, hfirst, hgap, hrest⟩
      · rw [hstop text hfollow]
      · have hskip : skipGap middle = skipGap next := hgap.skipGap_eq
        have hmiddle : between (skipGap middle) := by
          rw [hskip]
          exact follow_repeated hagain hend hrest hfollow
        obtain ⟨a, ha⟩ := hp text middle hlength hfirst hmiddle
        -- The word takes a character, so fewer words are left to be read.
        have hless := hform.length_lt hfirst
        have hle := hgap.length_le
        have hnext := (gap_skipGap next).length_le
        rw [hform.skipGap_eq hfirst] at htimes ha ⊢
        rw [ha, hskip]
        exact ih (by omega) (by omega) hrest

theorem Complete.many {between : List Char → Prop} (hp : Complete bound between p form)
    (hform : form.Begins Solid)
    (hstop : ∀ text, follow (skipGap text) → p.run (skipGap text) = none)
    (hagain : ∀ text last, Derives form text last → between (skipGap text))
    (hend : ∀ text, follow (skipGap text) → between (skipGap text)) :
    Complete bound follow (many p) (.repeated form) := by
  intro text last hlength hlast hfollow
  have hrun := hp.runMany hform hstop hagain hend ((skipGap text).length + 1) hlength
    (Nat.lt_succ_self _) hlast hfollow
  exact ⟨_, congrArg some (Prod.ext rfl hrun)⟩

theorem Complete.many1 {between : List Char → Prop} (hp : Complete bound between p form)
    (hform : form.Begins Solid)
    (hstop : ∀ text, follow (skipGap text) → p.run (skipGap text) = none)
    (hagain : ∀ text last, Derives form text last → between (skipGap text))
    (hend : ∀ text, follow (skipGap text) → between (skipGap text)) :
    Complete bound follow (many1 p) (.repeated1 form) := by
  refine hp.bind (fun _ => (hp.many hform hstop hagain hend).map _) ?_
  intro text last hlast hfollow
  exact follow_repeated hagain hend hlast hfollow

end

end Parser
end DecisionTuples
