import DecisionTuples.Proofs.Grammar.Form

/-!
# What a beginning of a text can be continued to

A word of a form that has been read up to some place can be completed there: `Reaches form
text place` says that what stands in `text` before `place` is the beginning of a word of the
form.  The completion goes on in a new line.  A line end parts it from the token before the
place, whatever that token is, and it ends a comment that reaches up to the place.

Two facts make this a notion that follows the structure of forms.

* What was derived before the place is still derived when the text goes on in a new line
  at the place (`Derives.continued`), because no token reaches over the end of a line.
* Every form has a word, whatever follows it in a new line (`Form.EndFree.completes`).

Both are facts about forms in which the end of the text does not occur.
-/

namespace DecisionTuples

theorem Gap.trans {text middle rest : List Char} (h : Gap text middle) (h' : Gap middle rest) :
    Gap text rest := by
  induction h with
  | none text => exact h'
  | blank hblank _ ih => exact .blank hblank (ih h')
  | line comment hcomment hend _ ih => exact .line comment hcomment hend (ih h')
  | block comment hcomment _ ih => exact .block comment hcomment (ih h')

/-- A new line is a gap. -/
theorem gap_newline (text : List Char) : Gap ('\n' :: text) text :=
  .blank isBlank_newline (.none text)

/-! ## Forms inside a text -/

namespace Form

/-- The end of the text does not occur in the form, and its tokens have spellings, none of
which reaches over the end of a line. -/
@[simp] def EndFree : Form → Prop
  | nothing => True
  | finish => False
  | symbol _ => True
  | word _ => True
  | longest language =>
    (∃ spelling, language spelling) ∧ ∀ spelling, language spelling → '\n' ∉ spelling
  | rule name => name ≠ .endOfInput ∧ name ≠ .file
  | sequence first second => first.EndFree ∧ second.EndFree
  | choice first second => first.EndFree ∧ second.EndFree
  | repeated form => form.EndFree
  | optionally form => form.EndFree

end Form

section

variable {spelling : List Char}

theorem IsName.newline_notMem (h : IsName spelling) : '\n' ∉ spelling := by
  obtain ⟨c, rest, rfl, hc, hrest⟩ := h
  intro hmem
  rcases List.mem_cons.mp hmem with rfl | hmem
  · exact absurd hc (by decide)
  · exact absurd (hrest _ hmem) (by decide)

theorem IsDigits.newline_notMem (h : IsDigits spelling) : '\n' ∉ spelling :=
  fun hmem => absurd (h.2 _ hmem) (by decide)

theorem IsNumeral.newline_notMem (h : IsNumeral spelling) : '\n' ∉ spelling := by
  rcases h with hdigits | ⟨whole, fraction, rfl, hwhole, hfraction⟩
  · exact hdigits.newline_notMem
  · simp [hwhole.newline_notMem, hfraction.newline_notMem]

theorem IsSigned.newline_notMem (h : IsSigned spelling) : '\n' ∉ spelling := by
  rcases h with hnumeral | ⟨numeral, rfl, hnumeral⟩
  · exact hnumeral.newline_notMem
  · simp [hnumeral.newline_notMem]

theorem IsComparison.newline_notMem (h : IsComparison spelling) : '\n' ∉ spelling := by
  simp only [IsComparison, List.mem_cons, List.not_mem_nil, or_false] at h
  rcases h with rfl | rfl | rfl | rfl | rfl | rfl
  all_goals decide

theorem IsEquality.newline_notMem (h : IsEquality spelling) : '\n' ∉ spelling := by
  simp only [IsEquality, List.mem_cons, List.not_mem_nil, or_false] at h
  rcases h with rfl | rfl
  all_goals decide

end

theorem isNumeral_zero : IsNumeral ['0'] :=
  .inl ⟨List.cons_ne_nil '0' [], List.forall_mem_singleton.mpr (by decide)⟩

/-- Only the rules for whole texts end with the text. -/
theorem Rule.endFree {name : Rule} (h : (Form.rule name).EndFree) : name.form.EndFree := by
  cases name with
  | endOfInput => exact absurd rfl h.1
  | file => exact absurd rfl h.2
  | variableName =>
      exact ⟨⟨['x'], 'x', [], rfl, by decide, List.forall_mem_nil _⟩,
        fun _ => IsName.newline_notMem⟩
  | precision => exact ⟨⟨['0'], isNumeral_zero⟩, fun _ => IsNumeral.newline_notMem⟩
  | equality => exact ⟨⟨['='], by simp [IsEquality]⟩, fun _ => IsEquality.newline_notMem⟩
  | comparison => exact ⟨⟨['='], by simp [IsComparison]⟩, fun _ => IsComparison.newline_notMem⟩
  | number =>
      exact ⟨⟨trivial, trivial⟩, trivial, ⟨['0'], .inl isNumeral_zero⟩,
        fun _ => IsSigned.newline_notMem⟩
  | _ => simp [Rule.form, Form.inOrder, Form.oneOf, Form.repeated1, Form.guard, Form.block,
      Form.condition, Form.item]

/-! ## Going on in a new line -/

variable {form first second : Form} {text middle next rest place : List Char}

/-- The relation also passes over what stands before the rest when the text goes on in a new
line at the place. -/
def Continued (passes : List Char → List Char → Prop) (text rest place : List Char) : Prop :=
  ∃ front, text = front ++ (rest ++ place) ∧
    ∀ tail, passes (front ++ (rest ++ '\n' :: tail)) (rest ++ '\n' :: tail)

theorem Continued.mono {passes passes' : List Char → List Char → Prop}
    (h : Continued passes text rest place)
    (himp : ∀ text last, passes text last → passes' text last) :
    Continued passes' text rest place := by
  obtain ⟨front, htext, hpasses⟩ := h
  exact ⟨front, htext, fun tail => himp _ _ (hpasses tail)⟩

/-- A gap is still one when the text goes on in a new line behind it. -/
theorem Gap.continued (h : Gap text (rest ++ place)) : Continued Gap text rest place := by
  generalize hwhole : rest ++ place = whole at h
  induction h with
  | none text => exact ⟨[], hwhole.symm, fun tail => .none _⟩
  | blank hblank _ ih =>
      obtain ⟨front, rfl, hgap⟩ := ih hwhole
      exact ⟨_ :: front, rfl, fun tail => .blank hblank (hgap tail)⟩
  | line comment hcomment hend _ ih =>
      obtain ⟨front, rfl, hgap⟩ := ih hwhole
      refine ⟨'/' :: '/' :: (comment ++ front), by simp, fun tail => ?_⟩
      have hline : ∀ c ∈ (front ++ (rest ++ '\n' :: tail)).head?, c = '\n' := by
        subst hwhole
        cases front with
        | cons c front => exact hend
        | nil =>
            cases rest with
            | cons c rest => exact hend
            | nil =>
                rintro c ⟨⟩
                rfl
      simpa using Gap.line comment hcomment hline (hgap tail)
  | block comment hcomment _ ih =>
      obtain ⟨front, rfl, hgap⟩ := ih hwhole
      refine ⟨'/' :: '*' :: (comment ++ '*' :: '/' :: front), by simp, fun tail => ?_⟩
      simpa using Gap.block comment hcomment (hgap tail)

theorem AtWordEnd.continued (h : AtWordEnd (rest ++ place)) (tail : List Char) :
    AtWordEnd (rest ++ '\n' :: tail) := by
  cases rest with
  | cons c rest => exact h
  | nil =>
      rintro c ⟨⟩
      decide

/-- A spelling that does not reach over the end of a line is found before it. -/
theorem prefix_of_prefix_newline {spelling front tail : List Char} (hspelling : '\n' ∉ spelling)
    (h : spelling <+: front ++ '\n' :: tail) : spelling <+: front := by
  rcases List.prefix_or_prefix_of_prefix h (List.prefix_append front ('\n' :: tail)) with h' | h'
  · exact h'
  · -- Otherwise the line end would be part of the spelling.
    obtain ⟨more, rfl⟩ := h'
    cases more with
    | nil => simp
    | cons c more =>
        obtain ⟨rfl, -⟩ := List.cons_prefix_cons.mp ((List.prefix_append_right_inj front).mp h)
        simp at hspelling

theorem longest_newline {language : List Char → Prop} {spelling front tail : List Char}
    (hlanguage : ∀ spelling, language spelling → '\n' ∉ spelling) (hspelling : language spelling)
    (hmax : ∀ other, language other → other <+: spelling ++ front →
      other.length ≤ spelling.length) :
    Longest language (spelling ++ (front ++ '\n' :: tail)) (front ++ '\n' :: tail) := by
  refine ⟨spelling, hspelling, rfl, fun other hother hfront => hmax other hother ?_⟩
  rw [← List.append_assoc] at hfront
  exact prefix_of_prefix_newline (hlanguage other hother) hfront

/-- What stands before a gap lies before the place too. -/
theorem Gap.continued_behind {passes : List Char → List Char → Prop}
    (h : Gap middle (rest ++ place))
    (hpasses : ∀ between, between ++ place = middle → Continued passes text between place) :
    Continued (fun text last => ∃ middle, passes text middle ∧ Gap middle last)
      text rest place := by
  obtain ⟨between, rfl, hgap⟩ := h.continued
  obtain ⟨front, rfl, hfront⟩ := hpasses (between ++ rest) (by simp)
  refine ⟨front ++ between, by simp, fun tail => ⟨_, ?_, hgap tail⟩⟩
  simpa using hfront tail

/-- **What has been derived is still derived when the text goes on in a new line** at any
place behind it. -/
theorem Derives.continued (h : Derives form text (rest ++ place)) (hform : form.EndFree) :
    Continued (Derives form) text rest place := by
  generalize hwhole : rest ++ place = whole at h
  induction h generalizing rest with
  | nothing text => exact ⟨[], hwhole.symm, fun tail => .nothing _⟩
  | finish => exact hform.elim
  | symbol letters _ =>
      subst hwhole
      exact ⟨letters, rfl, fun tail => .symbol letters _⟩
  | word letters hend =>
      subst hwhole
      exact ⟨letters, rfl, fun tail => .word letters (hend.continued tail)⟩
  | longest h =>
      subst hwhole
      obtain ⟨spelling, hspelling, rfl, hmax⟩ := h
      refine ⟨spelling, rfl, fun tail => .longest (longest_newline hform.2 hspelling ?_)⟩
      intro other hother hfront
      refine hmax other hother (hfront.trans ?_)
      rw [← List.append_assoc]
      exact List.prefix_append _ _
  | rule _ ih => exact (ih (Rule.endFree hform) hwhole).mono fun _ _ => .rule
  | left _ ih => exact (ih hform.1 hwhole).mono fun _ _ => .left
  | right _ ih => exact (ih hform.2 hwhole).mono fun _ _ => .right
  | stop text => exact ⟨[], hwhole.symm, fun tail => .stop _⟩
  | absent text => exact ⟨[], hwhole.symm, fun tail => .absent _⟩
  | present _ ih => exact (ih hform hwhole).mono fun _ _ => .present
  | sequence _ hgap _ ihfirst ihsecond =>
      obtain ⟨word, rfl, hsecond⟩ := ihsecond hform.2 hwhole
      rw [← List.append_assoc] at hgap
      obtain ⟨front, rfl, hfirst⟩ := hgap.continued_behind fun _ => ihfirst hform.1
      refine ⟨front ++ word, by simp, fun tail => ?_⟩
      obtain ⟨middle, hderives, hgap⟩ := hfirst tail
      rw [List.append_assoc] at hderives hgap ⊢
      exact .sequence hderives hgap (hsecond tail)
  | more _ hgap _ ihfirst ihrest =>
      obtain ⟨word, rfl, hrest⟩ := ihrest hform hwhole
      rw [← List.append_assoc] at hgap
      obtain ⟨front, rfl, hfirst⟩ := hgap.continued_behind fun _ => ihfirst hform
      refine ⟨front ++ word, by simp, fun tail => ?_⟩
      obtain ⟨middle, hderives, hgap⟩ := hfirst tail
      rw [List.append_assoc] at hderives hgap ⊢
      exact .more hderives hgap (hrest tail)

/-! ## Every form has a word -/

namespace Form

/-- Some word of the form is one whatever follows it in a new line. -/
def Completes (form : Form) : Prop :=
  ∃ word, ∀ rest, Derives form (word ++ '\n' :: rest) ('\n' :: rest)

namespace Completes

theorem nothing : Form.nothing.Completes := ⟨[], fun _ => .nothing _⟩

theorem symbol (letters : List Char) : (Form.symbol letters).Completes :=
  ⟨letters, fun _ => .symbol letters _⟩

theorem word (letters : List Char) : (Form.word letters).Completes := by
  refine ⟨letters, fun rest => .word letters ?_⟩
  rintro c ⟨⟩
  decide

theorem longest {language : List Char → Prop} (h : (Form.longest language).EndFree) :
    (Form.longest language).Completes := by
  obtain ⟨⟨spelling, hspelling⟩, hlanguage⟩ := h
  have hmax : ∀ other, language other → other <+: spelling ++ [] →
      other.length ≤ spelling.length := by
    intro other _ hfront
    rw [List.append_nil] at hfront
    exact hfront.length_le
  exact ⟨spelling, fun rest => .longest (longest_newline hlanguage hspelling hmax)⟩

theorem rule {name : Rule} (h : name.form.Completes) : (Form.rule name).Completes := by
  obtain ⟨word, hword⟩ := h
  exact ⟨word, fun rest => .rule (hword rest)⟩

/-- The second word stands in a line of its own. -/
theorem sequence (h : first.Completes) (h' : second.Completes) :
    (Form.sequence first second).Completes := by
  obtain ⟨word, hword⟩ := h
  obtain ⟨word', hword'⟩ := h'
  refine ⟨word ++ '\n' :: word', fun rest => ?_⟩
  rw [List.append_assoc]
  exact .sequence (hword _) (gap_newline _) (hword' rest)

theorem left (h : first.Completes) : (Form.choice first second).Completes := by
  obtain ⟨word, hword⟩ := h
  exact ⟨word, fun rest => .left (hword rest)⟩

theorem right (h : second.Completes) : (Form.choice first second).Completes := by
  obtain ⟨word, hword⟩ := h
  exact ⟨word, fun rest => .right (hword rest)⟩

theorem repeated (form : Form) : (Form.repeated form).Completes := ⟨[], fun _ => .stop _⟩

theorem optionally (form : Form) : (Form.optionally form).Completes := ⟨[], fun _ => .absent _⟩

/-! The parts of which the larger constructs are made. -/

theorem named {name : Rule} {language : List Char → Prop} (h : (Form.rule name).EndFree)
    (hname : name.form = .longest language) : (Form.rule name).Completes := by
  have hform := Rule.endFree h
  refine .rule ?_
  rw [hname] at hform ⊢
  exact longest hform

theorem variableName : (Form.rule .variableName).Completes := .named ⟨nofun, nofun⟩ rfl

theorem equality : (Form.rule .equality).Completes := .named ⟨nofun, nofun⟩ rfl

theorem comparison : (Form.rule .comparison).Completes := .named ⟨nofun, nofun⟩ rfl

theorem precision : (Form.rule .precision).Completes := .named ⟨nofun, nofun⟩ rfl

theorem truthValue : (Form.rule .truthValue).Completes := .rule (.left (.word _))

theorem number : (Form.rule .number).Completes := .rule (.right (.left (.word _)))

theorem interval : (Form.rule .interval).Completes :=
  .rule (.sequence (.rule (.left (.symbol _))) (.sequence number (.sequence (.symbol _)
    (.sequence number (.rule (.left (.symbol _)))))))

theorem truthFirst : (Form.rule .truthFirst).Completes :=
  .rule (.sequence truthValue (.sequence equality variableName))

theorem conditions : (Form.rule .conditions).Completes :=
  .rule (.sequence (.left truthFirst) (.repeated _))

theorem guard : Form.guard.Completes := .sequence (.symbol _) (.sequence conditions (.symbol _))

theorem block : Form.block.Completes := .sequence (.symbol _) (.sequence (.repeated _) (.symbol _))

theorem ifWord : (Form.rule .ifWord).Completes := .rule (.word _)

theorem elseWord : (Form.rule .elseWord).Completes := .rule (.word _)

theorem declaration : (Form.rule .declaration).Completes :=
  .rule (.sequence (.rule (.word _)) (.sequence variableName (.sequence (.symbol _)
    (.left (.rule (.symbol _))))))

/-- Every rule inside a text has a word. -/
theorem of_rule {name : Rule} (h : (Form.rule name).EndFree) :
    (Form.rule name).Completes := by
  cases name with
  | endOfInput => exact absurd rfl h.1
  | file => exact absurd rfl h.2
  | feature => exact .rule (.sequence (.symbol _) (.sequence
      (.sequence (.left declaration) (.repeated _)) (.symbol _)))
  | declaration => exact declaration
  | boolType => exact .rule (.symbol _)
  | intType => exact .rule (.symbol _)
  | preciseType => exact .rule (.sequence (.symbol _) (.sequence (.symbol _)
      (.sequence precision (.symbol _))))
  | numType => exact .rule (.symbol _)
  | decision => exact .rule (.sequence ifWord (.sequence guard (.sequence (.optionally _)
      (.sequence (.repeated _) (.optionally _)))))
  | body => exact .rule block
  | alternative => exact .rule (.sequence elseWord (.sequence ifWord (.sequence guard
      (.optionally _))))
  | closing => exact .rule (.sequence elseWord block)
  | conditions => exact conditions
  | truthFirst => exact truthFirst
  | truthLast => exact .rule (.sequence variableName (.sequence equality truthValue))
  | numberFirst => exact .rule (.sequence number (.sequence comparison variableName))
  | numberLast => exact .rule (.sequence variableName (.sequence comparison number))
  | membership => exact .rule (.sequence variableName (.sequence (.rule (.word _)) interval))
  | interval => exact interval
  | lowerBracket => exact .rule (.left (.symbol _))
  | upperBracket => exact .rule (.left (.symbol _))
  | varWord => exact .rule (.word _)
  | ifWord => exact ifWord
  | elseWord => exact elseWord
  | truthValue => exact truthValue
  | equality => exact equality
  | comparison => exact comparison
  | inWord => exact .rule (.word _)
  | variableName => exact variableName
  | precision => exact precision
  | number => exact number

end Completes
end Form

/-- **Every form inside a text has a word.** -/
theorem Form.EndFree.completes : ∀ {form : Form}, form.EndFree → form.Completes
  | .nothing, _ => .nothing
  | .finish, h => h.elim
  | .symbol letters, _ => .symbol letters
  | .word letters, _ => .word letters
  | .longest _, h => .longest h
  | .rule _, h => .of_rule h
  | .sequence _ _, h => .sequence h.1.completes h.2.completes
  | .choice _ _, h => .left h.1.completes
  | .repeated form, _ => .repeated form
  | .optionally form, _ => .optionally form

/-! ## Places that words can be completed from -/

/-- What stands in the text before the place is the beginning of a word of the form, perhaps
behind a gap: in a new line it can be completed, whatever follows in the line after. -/
def Reaches (form : Form) (text place : List Char) : Prop :=
  ∃ front completion, text = front ++ place ∧ ∀ rest, ∃ start,
    Gap (front ++ '\n' :: (completion ++ '\n' :: rest)) start ∧ Derives form start ('\n' :: rest)

namespace Reaches

variable {form' : Form}

/-- A word can be begun anywhere. -/
theorem here (h : form.EndFree) (text : List Char) : Reaches form text text := by
  obtain ⟨word, hword⟩ := h.completes
  exact ⟨[], word, rfl, fun rest => ⟨_, gap_newline _, hword rest⟩⟩

theorem mono (h : Reaches form text place)
    (himp : ∀ text rest, Derives form text rest → Derives form' text rest) :
    Reaches form' text place := by
  obtain ⟨front, completion, htext, hderives⟩ := h
  refine ⟨front, completion, htext, fun rest => ?_⟩
  obtain ⟨start, hgap, hstart⟩ := hderives rest
  exact ⟨start, hgap, himp _ _ hstart⟩

/-- A place in the first word: all of the second one is still to come. -/
theorem of_first (h : Reaches first text place) (hsecond : second.EndFree) :
    Reaches (.sequence first second) text place := by
  obtain ⟨front, completion, rfl, hderives⟩ := h
  obtain ⟨word, hword⟩ := hsecond.completes
  refine ⟨front, completion ++ '\n' :: word, rfl, fun rest => ?_⟩
  obtain ⟨start, hgap, hfirst⟩ := hderives (word ++ '\n' :: rest)
  refine ⟨start, by simpa using hgap, .sequence hfirst (gap_newline _) (hword rest)⟩

/-- A place in the second word: the first one stands before it. -/
theorem of_second (h : Derives first text middle) (hfirst : first.EndFree) (hgap : Gap middle next)
    (hplace : Reaches second next place) : Reaches (.sequence first second) text place := by
  obtain ⟨front', completion, rfl, hderives⟩ := hplace
  obtain ⟨front, rfl, hfront⟩ := hgap.continued_behind fun between hbetween => by
    subst hbetween
    exact h.continued hfirst
  refine ⟨front ++ front', completion, by simp, fun rest => ?_⟩
  obtain ⟨start, hgap', hsecond⟩ := hderives rest
  obtain ⟨middle', hword, hbetween⟩ := hfront (completion ++ '\n' :: rest)
  refine ⟨_, .none _, ?_⟩
  rw [List.append_assoc]
  exact .sequence hword (hbetween.trans hgap') hsecond

/-- A place in the first word of a repetition. -/
theorem of_one (h : Reaches form text place) : Reaches (.repeated form) text place :=
  h.mono fun _ _ hderives => .more hderives (.none _) (.stop _)

/-- A place in a later word of a repetition. -/
theorem of_more (h : Derives form text middle) (hform : form.EndFree) (hgap : Gap middle next)
    (hplace : Reaches (.repeated form) next place) : Reaches (.repeated form) text place := by
  refine (of_second h hform hgap hplace).mono fun text rest hderives => ?_
  obtain ⟨middle, next, hfirst, hgap, hrest⟩ := derives_sequence_iff.mp hderives
  exact .more hfirst hgap hrest

end Reaches
end DecisionTuples
