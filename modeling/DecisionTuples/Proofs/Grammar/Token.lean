import DecisionTuples.Proofs.Grammar.Form
import Mathlib.Data.List.TakeWhile

/-!
# Reading a token is deriving it

For every token the function that reads it and the form that stands for it agree:
the function gives a rest exactly if the form derives what stands before the rest.
-/

namespace DecisionTuples

/-- The function gives a rest exactly if the form derives what stands before it. -/
def Reads {α : Type} (read : List Char → Option (α × List Char)) (form : Form) : Prop :=
  ∀ text rest, (∃ a, read text = some (a, rest)) ↔ Derives form text rest

theorem Reads.unique {α : Type} {read : List Char → Option (α × List Char)} {form : Form}
    (h : Reads read form) {text rest rest' : List Char} (hrest : Derives form text rest)
    (hrest' : Derives form text rest') : rest = rest' := by
  obtain ⟨a, ha⟩ := (h text rest).mpr hrest
  obtain ⟨a', ha'⟩ := (h text rest').mpr hrest'
  rw [ha] at ha'
  cases ha'
  rfl

/-! ## Fixed characters -/

theorem strip?_eq_some_iff {letters text rest : List Char} :
    strip? letters text = some rest ↔ text = letters ++ rest := by
  induction letters generalizing text with
  | nil => exact Option.some_inj
  | cons c letters ih =>
      cases text with
      | nil => simp [strip?]
      | cons d text =>
          rw [strip?]
          by_cases hc : c = d
          · subst hc
            rw [if_pos rfl, ih, List.cons_append, List.cons.injEq]
            exact (and_iff_right rfl).symm
          · rw [if_neg hc, List.cons_append, List.cons.injEq]
            exact ⟨nofun, fun h => absurd h.1.symm hc⟩

theorem stripWord?_eq_some_iff {letters text rest : List Char} :
    stripWord? letters text = some rest ↔ text = letters ++ rest ∧ AtWordEnd rest := by
  rw [← strip?_eq_some_iff]
  unfold stripWord?
  split
  · next c behind hstrip =>
      by_cases hc : isWordChar c = true
      · rw [if_pos hc, hstrip]
        refine ⟨nofun, ?_⟩
        rintro ⟨hrest, hend⟩
        cases hrest
        rw [hend c rfl] at hc
        cases hc
      · rw [if_neg hc, hstrip]
        refine ⟨fun hrest => ⟨hrest, ?_⟩, And.left⟩
        cases hrest
        rintro d ⟨⟩
        exact Bool.eq_false_iff.mpr hc
  · next hstrip =>
      refine ⟨fun hrest => ⟨hrest, ?_⟩, And.left⟩
      intro c hc
      cases rest with
      | nil => cases hc
      | cons d rest => exact absurd hrest (hstrip d rest)

theorem symbol_reads (letters : List Char) :
    Reads (fun text => (strip? letters text).map fun rest => ((), rest)) (.symbol letters) := by
  intro text rest
  simp [derives_symbol_iff, strip?_eq_some_iff]

theorem word_reads (letters : List Char) :
    Reads (fun text => (stripWord? letters text).map fun rest => ((), rest)) (.word letters) := by
  intro text rest
  simp [derives_word_iff, stripWord?_eq_some_iff]

/-! ## Longest spellings -/

/-- There is only one longest spelling. -/
theorem Longest.unique {language : List Char → Prop} {text rest rest' : List Char}
    (h : Longest language text rest) (h' : Longest language text rest') : rest = rest' := by
  obtain ⟨spelling, hspelling, htext, hmax⟩ := h
  obtain ⟨spelling', hspelling', htext', hmax'⟩ := h'
  have hle := hmax spelling' hspelling' ⟨rest', htext'.symm⟩
  have hge := hmax' spelling hspelling ⟨rest, htext.symm⟩
  exact (List.append_inj (htext.symm.trans htext') (le_antisymm hge hle)).2

/-- It is enough that a function that finds a spelling finds the longest one, and that it
finds one wherever there is any. -/
theorem reads_longest {α : Type} {read : List Char → Option (α × List Char)}
    {language : List Char → Prop}
    (hlongest : ∀ text a rest, read text = some (a, rest) → Longest language text rest)
    (hfinds : ∀ text spelling, language spelling → spelling <+: text → (read text).isSome) :
    Reads read (.longest language) := by
  intro text rest
  rw [derives_longest_iff]
  constructor
  · rintro ⟨a, ha⟩
    exact hlongest text a rest ha
  · intro h
    -- Something is found, and what is found is a longest spelling as well.
    obtain ⟨spelling, hspelling, htext, -⟩ := id h
    obtain ⟨⟨a, rest'⟩, ha⟩ :=
      Option.isSome_iff_exists.mp (hfinds text spelling hspelling ⟨rest, htext.symm⟩)
    rw [h.unique (hlongest text a rest' ha)]
    exact ⟨a, ha⟩

/-- No run of characters of a kind goes on behind the longest one. -/
theorem length_le_takeWhile {p : Char → Bool} {spelling text : List Char}
    (h : ∀ c ∈ spelling, p c = true) (hfront : spelling <+: text) :
    spelling.length ≤ (text.takeWhile p).length := by
  obtain ⟨rest, rfl⟩ := hfront
  rw [List.takeWhile_append_of_pos h, List.length_append]
  exact Nat.le_add_right _ _

/-! ## Names -/

theorem variableName_reads : Reads readName? (.longest IsName) := by
  apply reads_longest
  · intro text name rest h
    cases text with
    | nil => cases h
    | cons c text =>
        rw [readName?] at h
        split at h
        · next hstart =>
            cases h
            refine ⟨c :: text.takeWhile isWordChar, ⟨c, _, rfl, hstart, ?_⟩, ?_, ?_⟩
            · exact fun d hd => List.mem_takeWhile_imp hd
            · rw [List.cons_append, List.takeWhile_append_dropWhile]
            · rintro other ⟨d, more, rfl, -, hmore⟩ hfront
              have htail := (List.cons_prefix_cons.mp hfront).2
              exact Nat.succ_le_succ (length_le_takeWhile hmore htail)
        · cases h
  · rintro text spelling ⟨c, more, rfl, hstart, -⟩ ⟨rest, rfl⟩
    rw [List.cons_append, readName?, if_pos hstart]
    rfl

/-! ## Numerals -/

theorem isDigit_point : ¬ Char.isDigit '.' = true := by decide

/-- Digits that no digit goes on with are all the digits at the front. -/
theorem digits_before {digits rest : List Char} (h : ∀ c ∈ digits, c.isDigit = true)
    (hrest : ∀ c ∈ rest.head?, ¬ c.isDigit = true) :
    (digits ++ rest).takeWhile Char.isDigit = digits ∧
      (digits ++ rest).dropWhile Char.isDigit = rest := by
  rw [List.takeWhile_append_of_pos h, List.dropWhile_append_of_pos h]
  cases rest with
  | nil => exact ⟨List.append_nil digits, rfl⟩
  | cons c tail =>
      have hc := hrest c rfl
      rw [List.takeWhile_cons_of_neg hc, List.dropWhile_cons_of_neg hc, List.append_nil]
      exact ⟨rfl, rfl⟩

theorem digits_before_point {whole : List Char} (h : ∀ c ∈ whole, c.isDigit = true)
    (tail : List Char) :
    (whole ++ '.' :: tail).takeWhile Char.isDigit = whole ∧
      (whole ++ '.' :: tail).dropWhile Char.isDigit = '.' :: tail := by
  refine digits_before h ?_
  rintro c ⟨⟩
  exact isDigit_point

theorem isDigits_takeWhile {text : List Char} (h : text.takeWhile Char.isDigit ≠ []) :
    IsDigits (text.takeWhile Char.isDigit) :=
  ⟨h, fun _ hc => List.mem_takeWhile_imp hc⟩

/-- A numeral at the front of a text is the digits there, and perhaps a point with digits
behind it. -/
theorem IsNumeral.front_cases {spelling text : List Char} (h : IsNumeral spelling)
    (hfront : spelling <+: text) :
    spelling.length ≤ (text.takeWhile Char.isDigit).length ∨
      ∃ tail fraction, text.dropWhile Char.isDigit = '.' :: tail ∧ IsDigits fraction ∧
        fraction <+: tail ∧
          spelling.length = (text.takeWhile Char.isDigit).length + 1 + fraction.length := by
  rcases h with hdigits | ⟨whole, fraction, rfl, hwhole, hfraction⟩
  · exact .inl (length_le_takeWhile hdigits.2 hfront)
  · right
    obtain ⟨rest, rfl⟩ := hfront
    rw [List.append_assoc, List.cons_append]
    obtain ⟨htake, hdrop⟩ := digits_before_point hwhole.2 (fraction ++ rest)
    refine ⟨fraction ++ rest, fraction, hdrop, hfraction, ⟨rest, rfl⟩, ?_⟩
    rw [htake, List.length_append, List.length_cons]
    omega

theorem IsDigits.takeWhile_ne_nil {digits text : List Char} (h : IsDigits digits)
    (hfront : digits <+: text) : text.takeWhile Char.isDigit ≠ [] := by
  intro hnil
  have hle := length_le_takeWhile h.2 hfront
  rw [hnil] at hle
  exact h.1 (List.eq_nil_of_length_eq_zero (Nat.le_zero.mp hle))

theorem IsNumeral.takeWhile_ne_nil {spelling text : List Char} (h : IsNumeral spelling)
    (hfront : spelling <+: text) : text.takeWhile Char.isDigit ≠ [] := by
  rcases h with hdigits | ⟨whole, fraction, rfl, hwhole, -⟩
  · exact hdigits.takeWhile_ne_nil hfront
  · exact hwhole.takeWhile_ne_nil ((List.prefix_append _ _).trans hfront)

theorem longest_of_read? {text rest : List Char} {numeral : Numeral}
    (h : Numeral.read? text = some (numeral, rest)) : Longest IsNumeral text rest := by
  have htext : text = text.takeWhile Char.isDigit ++ text.dropWhile Char.isDigit :=
    List.takeWhile_append_dropWhile.symm
  unfold Numeral.read? at h
  split at h
  · cases h
  · next _ _ tail hdrop hsome =>
      have hdigits := isDigits_takeWhile hsome
      rw [hdrop] at htext
      split at h
      · -- No digits behind the point: the numeral ends before it.
        next hnone =>
          cases h
          refine ⟨_, .inl hdigits, htext, ?_⟩
          intro other hother hfront
          rcases hother.front_cases hfront with hle | ⟨_, fraction, htail, hfraction, hbehind, _⟩
          · exact hle
          · rw [hdrop] at htail
            cases htail
            exact absurd hnone (hfraction.takeWhile_ne_nil hbehind)
      · next hfraction =>
          cases h
          refine ⟨text.takeWhile Char.isDigit ++ '.' :: tail.takeWhile Char.isDigit,
            .inr ⟨_, _, rfl, hdigits, isDigits_takeWhile hfraction⟩, ?_, ?_⟩
          · rw [List.append_assoc, List.cons_append, List.takeWhile_append_dropWhile]
            exact htext
          · intro other hother hfront
            rw [List.length_append, List.length_cons]
            rcases hother.front_cases hfront with
              hle | ⟨_, fraction, htail, hdigits', hbehind, hlen⟩
            · omega
            · rw [hdrop] at htail
              cases htail
              have hle := length_le_takeWhile hdigits'.2 hbehind
              omega
  · -- Something other than a point stands behind the digits.
    next hsome hpoint =>
      cases h
      refine ⟨_, .inl (isDigits_takeWhile hsome), htext, ?_⟩
      intro other hother hfront
      rcases hother.front_cases hfront with hle | ⟨tail, _, htail, _⟩
      · exact hle
      · exact absurd htail (hpoint tail)

theorem IsNumeral.isSome_read? {text spelling : List Char} (h : IsNumeral spelling)
    (hfront : spelling <+: text) : (Numeral.read? text).isSome := by
  have hsome := h.takeWhile_ne_nil hfront
  unfold Numeral.read?
  split
  · next hnone => exact absurd hnone hsome
  · split <;> rfl
  · rfl

theorem precision_reads : Reads Numeral.read? (.longest IsNumeral) :=
  reads_longest (fun _ _ _ => longest_of_read?) fun _ _ => IsNumeral.isSome_read?

/-! ## Numbers -/

/-- A minus sign and the longest numeral behind it are the longest signed numeral. -/
theorem Longest.minus {text rest : List Char} (h : Longest IsNumeral text rest) :
    Longest IsSigned ('-' :: text) rest := by
  obtain ⟨spelling, hspelling, rfl, hmax⟩ := h
  refine ⟨'-' :: spelling, .inr ⟨spelling, rfl, hspelling⟩, rfl, ?_⟩
  rintro other (hnumeral | ⟨numeral, rfl, hnumeral⟩) hfront
  · exact absurd (List.takeWhile_cons_of_neg (by decide)) (hnumeral.takeWhile_ne_nil hfront)
  · exact Nat.succ_le_succ (hmax numeral hnumeral (List.cons_prefix_cons.mp hfront).2)

theorem Longest.unsigned {text rest : List Char} (h : Longest IsNumeral text rest) :
    Longest IsSigned text rest := by
  obtain ⟨spelling, hspelling, htext, hmax⟩ := h
  refine ⟨spelling, .inl hspelling, htext, ?_⟩
  rintro other (hnumeral | ⟨numeral, rfl, -⟩) hfront
  · exact hmax other hnumeral hfront
  · obtain ⟨tail, rfl⟩ := hfront
    have hdigits := hspelling.takeWhile_ne_nil ⟨rest, htext.symm⟩
    exact absurd (List.takeWhile_cons_of_neg (by decide)) hdigits

/-- The word for infinity does not begin with a digit. -/
theorem stripWord?_infinityWord {text : List Char} (h : text.takeWhile Char.isDigit ≠ []) :
    stripWord? infinityWord text = none := by
  rw [Option.eq_none_iff_forall_ne_some]
  intro rest hrest
  obtain ⟨rfl, -⟩ := stripWord?_eq_some_iff.mp hrest
  exact h (List.takeWhile_cons_of_neg (by decide))

theorem exists_digit {text : List Char} (h : text.takeWhile Char.isDigit ≠ []) :
    ∃ c tail, text = c :: tail ∧ c.isDigit = true := by
  cases text with
  | nil => exact absurd rfl h
  | cons c tail =>
      refine ⟨c, tail, rfl, ?_⟩
      by_contra hc
      exact h (List.takeWhile_cons_of_neg hc)

/-- A kind of characters without blanks and without the slash. -/
theorem solid_of_kind {p : Char → Bool} (hp : [' ', '\t', '\r', '\n', '/'].any p = false)
    {c : Char} (hc : p c = true) : Solid c := by
  have hne : ∀ d ∈ [' ', '\t', '\r', '\n', '/'], c ≠ d := by
    rintro d hd rfl
    exact List.any_eq_false.mp hp c hd hc
  simp only [List.forall_mem_cons] at hne
  obtain ⟨hspace, htab, hreturn, hnewline, hslash, -⟩ := hne
  exact ⟨by simp [isBlank, hspace, htab, hreturn, hnewline], hslash⟩

theorem solid_of_isDigit {c : Char} (h : c.isDigit = true) : Solid c :=
  solid_of_kind (by decide) h

theorem solid_of_isWordStart {c : Char} (h : isWordStart c = true) : Solid c :=
  solid_of_kind (by decide) h

theorem readNumber?_plain {text : List Char} (h : ∀ tail, text = '-' :: tail → False) :
    readNumber? text = match stripWord? infinityWord text with
      | some rest => some (.infinity, rest)
      | none => (Numeral.read? text).map fun (numeral, rest) => (numeral.value false, rest) :=
  readNumber?.eq_2 text h

/-- The longest signed numeral is read. -/
theorem exists_readNumber?_of_longest {text rest : List Char} (h : Longest IsSigned text rest) :
    ∃ constant, readNumber? text = some (constant, rest) := by
  obtain ⟨spelling, hnumeral | ⟨numeral, rfl, hnumeral⟩, htext, -⟩ := id h
  · have hfront : spelling <+: text := ⟨rest, htext.symm⟩
    have hdigits := hnumeral.takeWhile_ne_nil hfront
    obtain ⟨⟨numeral, last⟩, hread⟩ := Option.isSome_iff_exists.mp (hnumeral.isSome_read? hfront)
    -- A digit is in front, so neither a sign nor the word for infinity is.
    have hplain : ∀ tail, text = '-' :: tail → False := by
      rintro tail rfl
      exact hdigits (List.takeWhile_cons_of_neg (by decide))
    have hlast : rest = last := h.unique (longest_of_read? hread).unsigned
    refine ⟨numeral.value false, ?_⟩
    rw [readNumber?_plain hplain, stripWord?_infinityWord hdigits, hread, hlast]
    rfl
  · subst htext
    have hfront : numeral <+: numeral ++ rest := ⟨rest, rfl⟩
    have hdigits := hnumeral.takeWhile_ne_nil hfront
    obtain ⟨⟨found, last⟩, hread⟩ := Option.isSome_iff_exists.mp (hnumeral.isSome_read? hfront)
    obtain ⟨c, tail, hcons, hc⟩ := exists_digit hdigits
    -- A gap may stand between the sign and the word, so it is skipped, but here is none.
    have hgap : skipGap (numeral ++ rest) = numeral ++ rest := by
      rw [hcons]
      exact (solid_of_isDigit hc).skipGap_cons tail
    have hlast : rest = last := h.unique (longest_of_read? hread).minus
    refine ⟨found.value true, ?_⟩
    rw [List.cons_append, readNumber?, hgap, stripWord?_infinityWord hdigits, hread, ← hlast]
    rfl

theorem derives_number_iff {text rest : List Char} :
    Derives (.rule .number) text rest ↔
      (∃ behind, text = '-' :: behind ∧ skipGap behind = infinityWord ++ rest ∧ AtWordEnd rest) ∨
        (text = infinityWord ++ rest ∧ AtWordEnd rest) ∨ Longest IsSigned text rest := by
  rw [derives_rule_iff]
  change Derives (.choice (.sequence (.symbol ['-']) (.word infinityWord))
    (.choice (.word infinityWord) (.longest IsSigned))) text rest ↔ _
  rw [derives_choice_iff, derives_choice_iff, derives_sequence_iff, derives_word_iff,
    derives_longest_iff]
  refine or_congr ?_ Iff.rfl
  constructor
  · rintro ⟨behind, next, hsign, hgap, hword⟩
    obtain rfl := derives_symbol_iff.mp hsign
    obtain ⟨rfl, hend⟩ := derives_word_iff.mp hword
    refine ⟨behind, rfl, ?_, hend⟩
    rw [hgap.skipGap_eq]
    exact Solid.skipGap_cons (by decide) _
  · rintro ⟨behind, rfl, hgap, hend⟩
    refine ⟨behind, skipGap behind, .symbol ['-'] behind, gap_skipGap behind, ?_⟩
    rw [hgap]
    exact .word infinityWord hend

theorem number_reads : Reads readNumber? Rule.number.form := by
  intro text rest
  rw [← derives_rule_iff, derives_number_iff]
  constructor
  · rintro ⟨constant, h⟩
    by_cases hminus : ∃ behind, text = '-' :: behind
    · obtain ⟨behind, rfl⟩ := hminus
      rw [readNumber?] at h
      split at h
      · next last hword =>
          cases h
          exact .inl ⟨behind, rfl, stripWord?_eq_some_iff.mp hword⟩
      · obtain ⟨⟨numeral, last⟩, hread, heq⟩ := Option.map_eq_some_iff.mp h
        cases heq
        exact .inr (.inr (longest_of_read? hread).minus)
    · rw [readNumber?_plain fun behind heq => hminus ⟨behind, heq⟩] at h
      split at h
      · next last hword =>
          cases h
          exact .inr (.inl (stripWord?_eq_some_iff.mp hword))
      · obtain ⟨⟨numeral, last⟩, hread, heq⟩ := Option.map_eq_some_iff.mp h
        cases heq
        exact .inr (.inr (longest_of_read? hread).unsigned)
  · rintro (⟨behind, rfl, hgap, hend⟩ | ⟨rfl, hend⟩ | h)
    · refine ⟨.negativeInfinity, ?_⟩
      rw [readNumber?, stripWord?_eq_some_iff.mpr ⟨hgap, hend⟩]
    · have hplain : ∀ tail, infinityWord ++ rest = '-' :: tail → False := by
        intro tail heq
        simp [infinityWord] at heq
      refine ⟨.infinity, ?_⟩
      rw [readNumber?_plain hplain, stripWord?_eq_some_iff.mpr ⟨rfl, hend⟩]
    · exact exists_readNumber?_of_longest h

/-! ## Words and signs to choose from -/

theorem truthValue_reads :
    Reads (fun text => match stripWord? ['t', 'r', 'u', 'e'] text with
      | some rest => some (true, rest)
      | none => (stripWord? ['f', 'a', 'l', 's', 'e'] text).map fun rest => (false, rest))
      Rule.truthValue.form := by
  intro text rest
  change _ ↔ Derives (.choice (.word ['t', 'r', 'u', 'e']) (.word ['f', 'a', 'l', 's', 'e']))
    text rest
  rw [derives_choice_iff, derives_word_iff, derives_word_iff, ← stripWord?_eq_some_iff,
    ← stripWord?_eq_some_iff]
  dsimp only
  cases htrue : stripWord? ['t', 'r', 'u', 'e'] text with
  | none => simp
  | some last =>
      -- No text begins with both words.
      have hfalse : stripWord? ['f', 'a', 'l', 's', 'e'] text = none := by
        rw [Option.eq_none_iff_forall_ne_some]
        intro rest hrest
        obtain ⟨rfl, -⟩ := stripWord?_eq_some_iff.mp htrue
        cases (stripWord?_eq_some_iff.mp hrest).1
      simp [hfalse]

section

variable {α : Type} {symbols : List (List Char × α)}

theorem readSymbol?_cons (letters : List Char) (value : α) (symbols : List (List Char × α))
    (text : List Char) :
    readSymbol? ((letters, value) :: symbols) text =
      ((strip? letters text).map fun rest => (value, rest)).or (readSymbol? symbols text) := by
  rw [readSymbol?, List.findSome?_cons]
  dsimp only
  cases strip? letters text with
  | none => rfl
  | some rest => rfl

/-- In a list in which no symbol stands behind one that begins it, the first symbol at the
front of the text is the longest. -/
theorem longest_of_readSymbol?
    (hsorted : symbols.Pairwise fun a b => a.1 <+: b.1 → b.1.length ≤ a.1.length)
    {text rest : List Char} {value : α} (h : readSymbol? symbols text = some (value, rest)) :
    Longest (fun spelling => spelling ∈ symbols.map Prod.fst) text rest := by
  induction symbols with
  | nil => cases h
  | cons symbol symbols ih =>
      obtain ⟨letters, found⟩ := symbol
      rw [List.pairwise_cons] at hsorted
      rw [readSymbol?_cons] at h
      cases hstrip : strip? letters text with
      | some last =>
          rw [hstrip] at h
          cases h
          have htext := strip?_eq_some_iff.mp hstrip
          refine ⟨letters, List.mem_cons_self, htext, ?_⟩
          intro other hother hfront
          rcases List.mem_cons.mp hother with rfl | hmem
          · exact le_rfl
          · obtain ⟨later, hlater, rfl⟩ := List.mem_map.mp hmem
            -- Of two symbols at the front one begins the other.
            rcases List.prefix_or_prefix_of_prefix ⟨rest, htext.symm⟩ hfront with hfirst | hlast
            · exact hsorted.1 later hlater hfirst
            · exact hlast.length_le
      | none =>
          rw [hstrip] at h
          obtain ⟨spelling, hspelling, htext, hmax⟩ := ih hsorted.2 h
          refine ⟨spelling, List.mem_cons_of_mem _ hspelling, htext, ?_⟩
          intro other hother hfront
          rcases List.mem_cons.mp hother with rfl | hmem
          · obtain ⟨last, hlast⟩ := hfront
            rw [strip?_eq_some_iff.mpr hlast.symm] at hstrip
            cases hstrip
          · exact hmax other hmem hfront

theorem readSymbol?_reads
    (hsorted : symbols.Pairwise fun a b => a.1 <+: b.1 → b.1.length ≤ a.1.length) :
    Reads (readSymbol? symbols) (.longest fun spelling => spelling ∈ symbols.map Prod.fst) := by
  apply reads_longest
  · intro text value rest h
    exact longest_of_readSymbol? hsorted h
  · rintro text spelling hspelling ⟨rest, rfl⟩
    obtain ⟨⟨letters, value⟩, hsymbol, rfl⟩ := List.mem_map.mp hspelling
    rw [readSymbol?, List.findSome?_isSome_iff]
    refine ⟨(letters, value), hsymbol, ?_⟩
    dsimp only
    rw [strip?_eq_some_iff.mpr rfl]
    rfl

theorem equality_reads :
    Reads (readSymbol? (Equality.all.map fun each => (each.spelling, each)))
      Rule.equality.form :=
  readSymbol?_reads (by decide)

theorem comparison_reads :
    Reads (readSymbol? (Comparison.all.map fun each => (each.spelling, each)))
      Rule.comparison.form :=
  readSymbol?_reads (by decide)

/-- Of two different brackets each is read. -/
theorem bracket_reads {a b : Char} (hne : a ≠ b) (x y : α) :
    Reads (readSymbol? [([a], x), ([b], y)]) (.choice (.symbol [a]) (.symbol [b])) := by
  intro text rest
  rw [derives_choice_iff, derives_symbol_iff, derives_symbol_iff, ← strip?_eq_some_iff,
    ← strip?_eq_some_iff, readSymbol?_cons, readSymbol?_cons]
  cases hfirst : strip? [a] text with
  | none => simp [readSymbol?]
  | some last =>
      have hsecond : strip? [b] text = none := by
        rw [Option.eq_none_iff_forall_ne_some]
        intro rest' hrest
        have htext := (strip?_eq_some_iff.mp hfirst).symm.trans (strip?_eq_some_iff.mp hrest)
        exact hne (List.cons.inj htext).1
      simp [hsecond]

end

end DecisionTuples
