import DecisionTuples.Proofs.Grammar.Clause

/-!
# What is written is read back

`Style.parse_text` says that the text of a feature is read as the same feature: nothing is
lost or reordered, alternatives stay with their decision, and a body without decisions is
told apart from none.

A repetition and an optional part are read as they were written because what follows them
begins differently.  The one place where more than a character is needed is behind the
last `else if`, where an `else` may follow (`lastTail_otherwise`).

Decisions and features nest, and their parsers take a bound on the depth.  A decision has
more tokens than the decisions in it (`Decision.Contains.length_lt`), so the number of
tokens is deep enough, and the length of the text is deeper still (`length_le_lay`).
-/

namespace DecisionTuples

theorem length_le_flatMap {α β : Type} {f : α → List β} {xs : List α} {x : α} (h : x ∈ xs) :
    (f x).length ≤ (xs.flatMap f).length := by
  rw [List.flatMap_def]
  exact (List.sublist_flatten_of_mem (List.mem_map_of_mem h)).length_le

namespace Style

variable (style : Style)

theorem decisions_eq_flatMap (written : List Decision) :
    style.decisions written = written.flatMap style.decision := by
  induction written with
  | nil => rfl
  | cons first rest ih => rw [decisions, ih, List.flatMap_cons]

theorem elseIfs_eq_flatMap (written : List ElseIf) :
    style.elseIfs written = written.flatMap style.elseIf := by
  induction written with
  | nil => rfl
  | cons first rest ih => rw [elseIfs, ih, List.flatMap_cons]

theorem features_eq_flatMap (written : List Feature) :
    style.features written = written.flatMap style.feature := by
  induction written with
  | nil => rfl
  | cons first rest ih => rw [features, ih, List.flatMap_cons]

theorem starts_decision (written : Decision) : Starts (· = 'i') (style.decision written) := by
  obtain ⟨conditions, body, elseIfs, otherwise⟩ := written
  exact ⟨'i', ['f'], _, rfl, rfl⟩

theorem starts_elseIf (written : ElseIf) : Starts (· = 'e') (style.elseIf written) := by
  obtain ⟨conditions, body⟩ := written
  exact ⟨'e', ['l', 's', 'e'], _, rfl, rfl⟩

theorem starts_feature (written : Feature) : Starts (· = '[') (style.feature written) := by
  obtain ⟨declarations, decisions, features⟩ := written
  exact ⟨'[', [], _, rfl, rfl⟩

end Style

theorem decisionsWritable_iff {written : List Decision} :
    DecisionsWritable written ↔ ∀ decision ∈ written, decision.Writable := by
  induction written with
  | nil => simp [DecisionsWritable]
  | cons first rest ih => rw [DecisionsWritable, ih, List.forall_mem_cons]

theorem elseIfsWritable_iff {written : List ElseIf} :
    ElseIfsWritable written ↔ ∀ alternative ∈ written, alternative.Writable := by
  induction written with
  | nil => simp [ElseIfsWritable]
  | cons first rest ih => rw [ElseIfsWritable, ih, List.forall_mem_cons]

theorem featuresWritable_iff {written : List Feature} :
    FeaturesWritable written ↔ ∀ feature ∈ written, feature.Writable := by
  induction written with
  | nil => simp [FeaturesWritable]
  | cons first rest ih => rw [FeaturesWritable, ih, List.forall_mem_cons]

/-! ## Decisions within decisions -/

/-- The inner decision stands in one of the blocks of the whole, and in no other decision
there. -/
def Decision.Contains : Decision → Decision → Prop
  | ⟨_, body, elseIfs, otherwise⟩, inner =>
    (∃ decisions ∈ body, inner ∈ decisions) ∨
      (∃ alternative ∈ elseIfs, ∃ decisions ∈ alternative.body, inner ∈ decisions) ∨
        ∃ decisions ∈ otherwise, inner ∈ decisions

theorem BlockWritable.writable {block : Option (List Decision)} (h : BlockWritable block)
    {inner : Decision} (hinner : ∃ decisions ∈ block, inner ∈ decisions) : inner.Writable := by
  obtain ⟨decisions, rfl, hmem⟩ := hinner
  exact decisionsWritable_iff.mp h inner hmem

namespace Style

theorem length_lt_body (style : Style) {block : Option (List Decision)} {inner : Decision}
    (hinner : ∃ decisions ∈ block, inner ∈ decisions) :
    (style.decision inner).length < (style.body block).length := by
  obtain ⟨decisions, rfl, hmem⟩ := hinner
  have hle := length_le_flatMap hmem (f := style.decision)
  rw [← style.decisions_eq_flatMap] at hle
  rw [body, List.length_append, List.length_cons]
  omega

theorem length_body_le_otherwise (style : Style) (block : Option (List Decision)) :
    (style.body block).length ≤ (style.otherwise block).length := by
  cases block with
  | none => exact le_rfl
  | some decisions => exact Nat.le_succ _

/-- The parts of a decision, one behind the other. -/
theorem decision_eq (style : Style) (conditions : List Condition) (below : Option (List Decision))
    (elseIfs : List ElseIf) (otherwise : Option (List Decision)) :
    style.decision ⟨conditions, below, elseIfs, otherwise⟩ =
      [['i', 'f']] ++ (style.guard conditions ++
        (style.body below ++ (style.elseIfs elseIfs ++ style.otherwise otherwise))) := by
  rw [decision, List.append_assoc, List.append_assoc, List.cons_append]
  rfl

end Style

namespace Decision.Contains

variable {whole inner : Decision}

theorem writable (h : whole.Contains inner) (hwhole : whole.Writable) : inner.Writable := by
  obtain ⟨conditions, below, elseIfs, otherwise⟩ := whole
  obtain ⟨-, hbelow, helseIfs, hotherwise⟩ := hwhole
  rcases h with hinner | ⟨⟨conditions', below'⟩, halternative, hinner⟩ | hinner
  · exact hbelow.writable hinner
  · exact (elseIfsWritable_iff.mp helseIfs _ halternative).2.writable hinner
  · exact hotherwise.writable hinner

/-- A decision takes more tokens than the decisions in it. -/
theorem length_lt (style : Style) (h : whole.Contains inner) :
    (style.decision inner).length < (style.decision whole).length := by
  obtain ⟨conditions, below, elseIfs, otherwise⟩ := whole
  simp only [style.decision_eq, List.length_append, List.length_singleton]
  rcases h with hinner | ⟨⟨conditions', below'⟩, halternative, hinner⟩ | hinner
  · have hlt := style.length_lt_body hinner
    omega
  · have hlt : (style.decision inner).length < (style.body below').length :=
      style.length_lt_body hinner
    have hle := length_le_flatMap halternative (f := style.elseIf)
    rw [← style.elseIfs_eq_flatMap, Style.elseIf, List.length_append] at hle
    omega
  · have hlt := style.length_lt_body hinner
    have hle := style.length_body_le_otherwise otherwise
    omega

end Decision.Contains

namespace Parser

variable {follow : List Char → Prop} (style : Style)

/-! ## Decisions -/

section

variable {inner : Parser Decision} (hsound : inner.Sound (.rule .decision))

include hsound

/-- Decisions between braces are read back if each of them is. -/
theorem block_takes {written : List Decision}
    (hinner : ∀ decision ∈ written, Takes NoTail inner (style.decision decision) decision) :
    Takes follow (block inner) (['\x7b'] :: style.decisions written ++ [['\x7d']]) written := by
  have hclose : Takes follow (literal ['\x7d'] >>= fun _ => pure written) [['\x7d']] written :=
    (literal_takes ⟨'\x7d', rfl, by decide⟩).map _
  have hagain : ∀ text, Opens (· = 'i') text → NoTail text :=
    fun _ htext => htext.avoids (forall_eq.mpr (by decide))
  have hend : ∀ text, Opens (· = '\x7d') text → NoTail text :=
    fun _ htext => htext.avoids (forall_eq.mpr (by decide))
  have hstop : Refuses (Opens (· = '\x7d')) inner [] :=
    (hsound.stops begins_decision).mono fun _ htext => htext.avoids (forall_eq.mpr (by decide))
  have hmany := Takes.many hinner (fun decision _ => style.starts_decision decision)
    (forall_eq.mpr (by decide)) hagain hend hstop
  rw [List.map_id', ← style.decisions_eq_flatMap] at hmany
  exact (literal_takes ⟨'\x7b', rfl, by decide⟩).then (hmany.bind hclose fun rest _ =>
    Starts.opens ⟨'\x7d', [], rest, rfl, rfl⟩ (forall_eq.mpr (by decide)))

/-- A body is read back, and none where there is none, if no brace follows. -/
theorem body_takes {written : Option (List Decision)}
    (hinner : ∀ decisions ∈ written, ∀ decision ∈ decisions,
      Takes NoTail inner (style.decision decision) decision) :
    Takes (Avoids (· = '\x7b')) (optional (body inner)) (style.body written) written := by
  cases written with
  | none => exact .absent ((body_sound hsound).stops begins_body)
  | some decisions => exact .present (.rule (block_takes style hsound (hinner decisions rfl)))

theorem alternative_takes {written : ElseIf} (hguard : GuardWritable written.conditions)
    (hinner : ∀ decisions ∈ written.body, ∀ decision ∈ decisions,
      Takes NoTail inner (style.decision decision) decision) :
    Takes (Avoids (· = '\x7b')) (alternative inner) (style.elseIf written) written := by
  obtain ⟨conditions, below⟩ := written
  exact .rule (elseWord_takes.then (ifWord_takes.then ((guard_takes style hguard).then
    ((body_takes style hsound hinner).map _))))

theorem closing_takes {written : Option (List Decision)}
    (hinner : ∀ decisions ∈ written, ∀ decision ∈ decisions,
      Takes NoTail inner (style.decision decision) decision) :
    Takes NoTail (optional (closing inner)) (style.otherwise written) written := by
  cases written with
  | none =>
      exact .absent (((closing_sound hsound).stops begins_closing).mono
        fun _ htext c hc heq => htext c hc (.inr heq))
  | some decisions =>
      exact .present (.rule (elseWord_takes.then (block_takes style hsound (hinner decisions rfl))))

/-- A closing alternative, or what follows the decision, ends the alternatives with
conditions. -/
theorem lastTail_otherwise {written : Option (List Decision)}
    (hinner : ∀ decisions ∈ written, ∀ decision ∈ decisions,
      Takes NoTail inner (style.decision decision) decision) {rest : List Token}
    (hrest : NoTail (skipGap (lay rest))) :
    LastTail (skipGap (lay (style.otherwise written ++ rest))) := by
  cases written with
  | none => exact .inl hrest
  | some decisions =>
      have hblock : Takes Anyhow (block inner) _ decisions :=
        block_takes style hsound (hinner decisions rfl)
      have hclosing : Takes Anyhow (closing inner) _ decisions := .rule (elseWord_takes.then hblock)
      obtain ⟨last, hlast, -⟩ := closing_sound hsound _ _ _ (hclosing rest trivial)
      exact .inr ⟨last, hlast⟩

theorem alternatives_takes {written : List ElseIf}
    (h : ∀ alternative ∈ written, Takes (Avoids (· = '\x7b')) (Parser.alternative inner)
      (style.elseIf alternative) alternative) :
    Takes LastTail (many (alternative inner)) (style.elseIfs written) written := by
  have hagain : ∀ text, Opens (· = 'e') text → Avoids (· = '\x7b') text :=
    fun _ htext => htext.avoids (forall_eq.mpr (by decide))
  have hmany := Takes.many h (fun alternative _ => style.starts_elseIf alternative)
    (forall_eq.mpr (by decide)) hagain (fun _ htext => htext.avoids)
    fun _ hrest => alternative_run_eq_none hsound hrest
  rw [List.map_id', ← style.elseIfs_eq_flatMap] at hmany
  exact hmany

end

/-- A decision is read back if the decisions in it are. -/
theorem decision_takes_of_inner (depth : Nat) {written : Decision} (h : written.Writable)
    (hinner : ∀ inner, written.Contains inner →
      Takes NoTail (decision depth) (style.decision inner) inner) :
    Takes NoTail (decision (depth + 1)) (style.decision written) written := by
  have hsound := decision_sound depth
  obtain ⟨conditions, below, elseIfs, otherwise⟩ := written
  obtain ⟨hguard, -, helseIfs, -⟩ := h
  have halternative : ∀ alternative ∈ elseIfs, Takes (Avoids (· = '\x7b'))
      (Parser.alternative (decision depth)) (style.elseIf alternative) alternative := by
    rintro ⟨conditions', below'⟩ hmem
    refine alternative_takes style hsound (elseIfsWritable_iff.mp helseIfs _ hmem).1 ?_
    exact fun decisions hbelow inner hmem' =>
      hinner inner (.inr (.inl ⟨_, hmem, decisions, hbelow, hmem'⟩))
  have hbody := body_takes style hsound fun decisions hbelow inner hmem =>
    hinner inner (.inl ⟨decisions, hbelow, hmem⟩)
  have hotherwise : ∀ decisions ∈ otherwise, ∀ inner ∈ decisions,
      Takes NoTail (decision depth) (style.decision inner) inner :=
    fun decisions hotherwise inner hmem =>
      hinner inner (.inr (.inr ⟨decisions, hotherwise, hmem⟩))
  have hclosing := closing_takes style hsound hotherwise
  rw [style.decision_eq]
  refine .rule (ifWord_takes.then ((guard_takes style hguard).then (hbody.bind
    ((alternatives_takes style hsound halternative).bind (hclosing.map _) ?_) ?_)))
  · exact fun rest hrest => lastTail_otherwise style hsound hotherwise hrest
  · intro rest hrest
    -- An alternative does not begin with a brace, nor does what is behind the last one.
    have hlast := lastTail_otherwise style hsound hotherwise hrest
    have hagain : ∀ text, Opens (· = 'e') text → Avoids (· = '\x7b') text :=
      fun _ htext => htext.avoids (forall_eq.mpr (by decide))
    rw [List.append_assoc, style.elseIfs_eq_flatMap]
    exact between_elements (fun alternative _ => style.starts_elseIf alternative)
      (forall_eq.mpr (by decide)) hagain (fun _ htext => htext.avoids) hlast

/-- A decision is read back, if it is not nested deeper than the parser allows and nothing
that could belong to it follows. -/
theorem decision_takes (depth : Nat) {written : Decision} (h : written.Writable)
    (hdepth : (style.decision written).length ≤ depth) :
    Takes NoTail (decision depth) (style.decision written) written := by
  induction depth generalizing written with
  | zero =>
      obtain ⟨c, tail, rest, heq, -⟩ := style.starts_decision written
      rw [heq] at hdepth
      cases hdepth
  | succ depth ih =>
      refine decision_takes_of_inner style depth h fun inner hinner => ih (hinner.writable h) ?_
      have hless := hinner.length_lt style
      omega

end Parser

/-! ## Statements -/

/-- A statement of a feature. -/
inductive Statement where
  | declaration (declared : Variable)
  | decision (decision : Decision)
  | feature (nested : Feature)

/-- The statements of a feature: declarations, decisions and nested features. -/
def Feature.statements (feature : Feature) : List Statement :=
  feature.declarations.map .declaration ++ feature.decisions.map .decision ++
    feature.features.map .feature

/-- The statement can be written. -/
def Statement.Writable : Statement → Prop
  | .declaration declared => declared.Writable
  | .decision written => written.Writable
  | .feature nested => nested.Writable

theorem Feature.Writable.statements_ne_nil {feature : Feature} (h : feature.Writable) :
    feature.statements ≠ [] := by
  obtain ⟨declarations, decisions, features⟩ := feature
  obtain ⟨hsome, -⟩ := h
  simp only [statements, ne_eq, List.append_eq_nil_iff, List.map_eq_nil_iff, not_and_or]
  tauto

theorem Feature.Writable.of_mem {feature : Feature} (h : feature.Writable) {statement : Statement}
    (hmem : statement ∈ feature.statements) : statement.Writable := by
  obtain ⟨declarations, decisions, features⟩ := feature
  obtain ⟨-, hdeclarations, hdecisions, hfeatures⟩ := h
  simp only [statements, List.mem_append, List.mem_map] at hmem
  rcases hmem with (⟨declared, hmem, rfl⟩ | ⟨decision, hmem, rfl⟩) | ⟨nested, hmem, rfl⟩
  · exact hdeclarations declared hmem
  · exact decisionsWritable_iff.mp hdecisions decision hmem
  · exact featuresWritable_iff.mp hfeatures nested hmem

namespace Style

/-- The tokens of a statement. -/
def statement (style : Style) : Statement → List Token
  | .declaration declared => style.declaration declared
  | .decision decision => style.decision decision
  | .feature nested => style.feature nested

theorem feature_eq (style : Style) (written : Feature) :
    style.feature written =
      ['['] :: written.statements.flatMap style.statement ++ [[']']] := by
  obtain ⟨declarations, decisions, features⟩ := written
  simp only [feature, Feature.statements, List.flatMap_append, List.flatMap_map, statement,
    decisions_eq_flatMap, features_eq_flatMap, List.cons_append, List.append_assoc]

theorem starts_statement (style : Style) (written : Statement) :
    Starts Parser.ItemStart (style.statement written) := by
  cases written with
  | declaration declared => exact ⟨'v', ['a', 'r'], _, rfl, .inl rfl⟩
  | decision decision => exact (style.starts_decision decision).mono fun _ h => .inr (.inl h)
  | feature nested => exact (style.starts_feature nested).mono fun _ h => .inr (.inr h)

mutual

/-- The statements of a feature, as they are read. -/
def items (style : Style) : Feature → List Item
  | ⟨declarations, decisions, features⟩ =>
    declarations.map (fun declared => .declaration declared.name (style.typeExpr declared)) ++
      decisions.map .decision ++ style.nestedItems features

/-- Nested features, as they are read. -/
def nestedItems (style : Style) : List Feature → List Item
  | [] => []
  | feature :: rest => .nested (style.items feature) :: style.nestedItems rest

end

/-- A statement, as it is read. -/
def item (style : Style) : Statement → Item
  | .declaration declared => .declaration declared.name (style.typeExpr declared)
  | .decision decision => .decision decision
  | .feature nested => .nested (style.items nested)

theorem nestedItems_eq_map (style : Style) (written : List Feature) :
    style.nestedItems written = written.map fun nested => .nested (style.items nested) := by
  induction written with
  | nil => rfl
  | cons first rest ih => rw [nestedItems, ih, List.map_cons]

theorem items_eq (style : Style) (written : Feature) :
    style.items written = written.statements.map style.item := by
  obtain ⟨declarations, decisions, features⟩ := written
  simp only [items, nestedItems_eq_map, Feature.statements, List.map_append, List.map_map]
  rfl

end Style

namespace Parser

theorem statement_takes (style : Style) (depth : Nat) {written : Statement} (h : written.Writable)
    (hdepth : (style.statement written).length ≤ depth)
    (hnested : ∀ nested, written = .feature nested →
      Takes Anyhow (feature depth) (style.feature nested) (style.items nested)) :
    Takes ItemEnd (item depth (feature depth)) (style.statement written) (style.item written) := by
  have hdeclaration {kind : Char → Prop} {tokens : List Token} (hstart : Starts kind tokens)
      (hkind : ∀ c, kind c → Solid c ∧ ¬ c = 'v') : Refuses ItemEnd declaration tokens :=
    declaration_sound.refuses begins_declaration (hstart.mono hkind)
  cases written with
  | declaration declared =>
      exact .left ((declaration_takes style h).mono fun _ htext c hc heq => htext c hc (.inl heq)) _
  | decision written =>
      have htakes : Takes ItemEnd (decision depth) (style.decision written) written :=
        (decision_takes style depth h hdepth).mono fun _ htext c hc heq => htext c hc (.inr heq)
      exact .right (hdeclaration (style.starts_decision written) (forall_eq.mpr (by decide)))
        (.left (htakes.map _) _)
  | feature nested =>
      have hstart := style.starts_feature nested
      have hdecision : Refuses ItemEnd (decision depth) (style.feature nested) :=
        (decision_sound depth).refuses begins_decision (hstart.mono (forall_eq.mpr (by decide)))
      have htakes : Takes ItemEnd (feature depth) (style.feature nested) (style.items nested) :=
        (hnested nested rfl).mono fun _ _ => trivial
      exact .right (hdeclaration hstart (forall_eq.mpr (by decide)))
        (.right hdecision.first (htakes.map _))

/-- A feature is read back, if it is not nested deeper than the parser allows. -/
theorem feature_takes (style : Style) (depth : Nat) {written : Feature} (h : written.Writable)
    (hdepth : (style.feature written).length ≤ depth) :
    Takes Anyhow (feature depth) (style.feature written) (style.items written) := by
  induction depth generalizing written with
  | zero =>
      rw [style.feature_eq] at hdepth
      cases hdepth
  | succ depth ih =>
      rw [style.feature_eq, List.length_append, List.length_cons] at hdepth
      have hstatements : ∀ statement ∈ written.statements, Takes ItemEnd
          (item depth (feature depth)) (style.statement statement) (style.item statement) := by
        intro statement hmem
        have hle := length_le_flatMap hmem (f := style.statement)
        have hwritable := h.of_mem hmem
        refine statement_takes style depth hwritable (by omega) ?_
        rintro nested rfl
        exact ih hwritable (by rw [Style.statement] at hle; omega)
      have hagain : ∀ text, Opens ItemStart text → ItemEnd text := by
        intro text htext
        refine htext.avoids ?_
        rintro c (rfl | rfl | rfl)
        all_goals decide
      have hend : ∀ text, Opens (· = ']') text → ItemEnd text :=
        fun _ htext => htext.avoids (forall_eq.mpr (by decide))
      have hstop : Refuses (Opens (· = ']')) (item depth (feature depth)) [] := by
        refine ((item_sound (feature_sound depth)).stops begins_item).mono fun _ htext => ?_
        refine htext.avoids (forall_eq.mpr ?_)
        unfold ItemStart
        decide
      have hmany := Takes.many1 h.statements_ne_nil hstatements
        (fun statement _ => style.starts_statement statement) ItemStart.solid hagain hend hstop
      have hclose : Takes Anyhow (literal [']'] >>= fun _ => pure (style.items written)) [[']']]
          (style.items written) := (literal_takes ⟨']', rfl, by decide⟩).map _
      rw [← style.items_eq] at hmany
      rw [style.feature_eq]
      exact .rule ((literal_takes ⟨'[', rfl, by decide⟩).then (hmany.bind hclose fun rest _ =>
        Starts.opens ⟨']', [], rest, rfl, rfl⟩ (forall_eq.mpr (by decide))))

end Parser

/-! ## Features from their statements -/

namespace Feature

variable {items : List Item} {feature : Feature}

/-- Declarations in front of other statements come first. -/
theorem ofItems_declarations (style : Style) {declarations : List Variable}
    (hdeclarations : ∀ declared ∈ declarations, declared.Writable)
    (h : ofItems items = .ok feature) :
    ofItems (declarations.map (fun declared =>
        .declaration declared.name (style.typeExpr declared)) ++ items) =
      .ok { feature with declarations := declarations ++ feature.declarations } := by
  induction declarations with
  | nil =>
      rw [List.map_nil, List.nil_append, h]
      cases feature
      rfl
  | cons declared declarations ih =>
      obtain ⟨hfirst, hrest⟩ := List.forall_mem_cons.mp hdeclarations
      rw [List.map_cons, List.cons_append, ofItems, ih hrest, Item.interpret,
        style.valueType_typeExpr hfirst]
      rfl

/-- Decisions in front of other statements come first. -/
theorem ofItems_decisions (decisions : List Decision) (h : ofItems items = .ok feature) :
    ofItems (decisions.map .decision ++ items) =
      .ok { feature with decisions := decisions ++ feature.decisions } := by
  induction decisions with
  | nil =>
      rw [List.map_nil, List.nil_append, h]
      cases feature
      rfl
  | cons decision decisions ih =>
      rw [List.map_cons, List.cons_append, ofItems, ih]
      rfl

end Feature

namespace Style

mutual

/-- The statements that are read make up the feature that was written. -/
theorem ofItems_items (style : Style) :
    ∀ written : Feature, written.Writable → Feature.ofItems (style.items written) = .ok written
  | ⟨declarations, decisions, features⟩, ⟨_, hdeclarations, _, hfeatures⟩ => by
    have hnested := style.ofItems_nestedItems features hfeatures
    rw [items, List.append_assoc, Feature.ofItems_declarations style hdeclarations
      (Feature.ofItems_decisions decisions hnested)]
    simp

theorem ofItems_nestedItems (style : Style) :
    ∀ written : List Feature, FeaturesWritable written →
      Feature.ofItems (style.nestedItems written) = .ok ⟨[], [], written⟩
  | [], _ => rfl
  | first :: rest, ⟨hfirst, hrest⟩ => by
    rw [nestedItems, Feature.ofItems, Item.interpret, style.ofItems_items first hfirst,
      style.ofItems_nestedItems rest hrest]
    rfl

end

/-- The whole text is read. -/
theorem source_run (style : Style) {written : Feature} (h : written.Writable) :
    (Parser.source (lay (style.feature written)).length).run (lay (style.feature written)) =
      some (style.items written, []) := by
  have hrun := Parser.feature_takes style ((lay (style.feature written)).length + 1) h
    (length_le_lay (style.feature written)) [] trivial
  rw [List.append_nil] at hrun
  rw [Parser.source_run, hrun]
  rfl

theorem parse_lay (style : Style) {written : Feature} (h : written.Writable) :
    Feature.parse (lay (style.feature written)) = .ok written := by
  rw [Feature.parse, style.source_run h]
  change (Feature.ofItems (style.items written)).mapError ParseError.precision = _
  rw [style.ofItems_items written h]
  rfl

/-- **Parsing inverts writing.**  The text of a feature that can be written is read as the
same feature, however it is written where there is a choice. -/
theorem parse_text (style : Style) (written : Feature) (h : written.Writable) :
    Feature.parse (style.text written).toList = .ok written := by
  rw [text, String.toList_ofList]
  exact style.parse_lay h

end Style

/-- A feature with alternatives, with bodies that are absent, empty and filled, and with
another feature in it. -/
def Feature.shapes : Feature :=
  ⟨[⟨"b", .bool⟩, ⟨"x", .number (.ofRatio false 1 4)⟩],
    [⟨[.comparison "x" .left (.ofRatio true 1 2) .atMost,
        .membership "x" ⟨.ofRatio false 1 1, .infinity⟩ ⟨true, false⟩],
      some [.leaf [.truth "b" .notEqual true]],
      [⟨[.comparison "x" .right .negativeInfinity .greater], none⟩], some []⟩,
     ⟨[.truth "b" .equal true], some [], [], none⟩],
    [⟨[⟨"n", .int⟩], [], []⟩]⟩

namespace Style

theorem parse_text_shapes :
    Feature.shapes.Writable ∧
      text ⟨fun _ => .left, fun _ => true⟩ .shapes =
        "[ var b : bool var x : num ( 0.25 ) " ++
          "if ( -0.5 <= x && x in ( 1 , Inf ] ) \x7b if ( true != b ) \x7d " ++
          "else if ( x > -Inf ) else \x7b \x7d if ( true = b ) \x7b \x7d [ var n : int ] ]" ∧
      Feature.parse (text ⟨fun _ => .left, fun _ => true⟩ .shapes).toList = .ok .shapes := by
  have hwritable : Feature.shapes.Writable := by
    decide +kernel
  exact ⟨hwritable, by decide +kernel, parse_text _ _ hwritable⟩

end Style
end DecisionTuples
