import DecisionTuples.Proofs.Engine.Meaning
import DecisionTuples.Proofs.Feature.Rearrangement
import DecisionTuples.Proofs.Grammar.RoundTrip
import DecisionTuples.Proofs.Tuple.Alignment
import DecisionTuples.Proofs.Tuple.Conjunction
import DecisionTuples.Proofs.Tuple.Joining

/-!
# The paths of a text

What holds of the paths that a text comes to, whether or not the text compiles: their
requirements are regular, and the declared precisions are numbers
(`Engine.pathTable_regular`).  So the laws about paths apply.

* `Engine.tuples_meet_iff`: two tuples meet exactly if their paths, taken together, have a
  tuple and do not clash.  `Engine.inequality_meets_nothing` is a text where all paths
  can be taken together and most of the tuples do not meet.
* `Engine.tuples_ignore_order`: the order of the requirements on a path does not matter,
  and rearranging the decisions of a text does not change its tuples.
* `Engine.tuples_join_in_any_order`: the tuples of a compiled text join to equal tuples in
  either order and in any grouping.
-/

namespace DecisionTuples
namespace Engine

variable {engine : Engine} {source : String} {table : PathTable}

/-- The text of a feature that can be written is parsed as the feature. -/
theorem parse_written (style : Style) {feature : Feature} (h : feature.Writable)
    (hsource : style.text feature = source) : engine.parse source = .ok feature := by
  rw [parse, ← hsource, Style.text, String.toList_ofList, style.parse_lay h]
  rfl

theorem pathTable_stages (h : engine.pathTable source = .ok table) :
    ∃ feature, engine.parse source = .ok feature ∧ feature.pathTable = .ok table := by
  obtain ⟨feature, hfeature, h⟩ := bind_eq_ok h
  exact ⟨feature, hfeature, (Compiler.pathTable_eq_ok_iff.mp (mapError_eq_ok h)).2⟩

/-- The laws about paths apply to the paths of a feature that was read from a text. -/
theorem regular_of_parse {feature : Feature} (hfeature : engine.parse source = .ok feature)
    (htable : feature.pathTable = .ok table) :
    (∀ path ∈ table.paths, ∀ requirement ∈ path, requirement.Regular) ∧
      ∀ declared ∈ table.declarations, declared.type.precision? ≠ some .nan := by
  have hparse := mapError_eq_ok hfeature
  rw [feature.eq_of_pathTable htable]
  refine ⟨?_, Feature.parse_precise hparse⟩
  intro path hpath requirement hrequirement
  obtain ⟨conditions, hconditions, rfl⟩ := List.mem_map.mp hpath
  obtain ⟨condition, hcondition, rfl⟩ := List.mem_map.mp hrequirement
  exact condition.regular_requirement
    (Feature.parse_ordered hparse conditions hconditions condition hcondition)

/-- The laws about paths apply to the paths of a text. -/
theorem pathTable_regular (h : engine.pathTable source = .ok table) :
    (∀ path ∈ table.paths, ∀ requirement ∈ path, requirement.Regular) ∧
      ∀ declared ∈ table.declarations, declared.type.precision? ≠ some .nan := by
  obtain ⟨feature, hfeature, htable⟩ := pathTable_stages h
  exact regular_of_parse hfeature htable

/-! ## Two paths taken together -/

/-- **When the tuples of two paths meet.**  They meet exactly if the paths have a tuple when
they are taken together and do not clash, and then joining the tuples gives just the
tuple of the paths taken together. -/
theorem tuples_meet_iff (h : engine.pathTable source = .ok table) {p q : Path}
    (hp : p ∈ table.paths) (hq : q ∈ table.paths) {a b : Tuple}
    (ha : p.tuple table.declarations = .ok (some a))
    (hb : q.tuple table.declarations = .ok (some b)) :
    (a.meets b = true ↔ (∃ c, (p ++ q).tuple table.declarations = .ok (some c)) ∧
        ¬ p.Clash q table.declarations) ∧
      (a.meets b = true → ∃ c, a.intersect? b = some c ∧
        (p ++ q).tuple table.declarations = .ok (some c)) := by
  obtain ⟨hregular, -⟩ := pathTable_regular h
  exact Path.meets_iff (hregular p hp) (hregular q hq) ha hb

/-- Two paths that overlap between three and ten. -/
theorem tuples_meet_iff_overlap :
    ∃ table p q a b, (Engine.mk .default).pathTable
        "[ var x: num if (x > 3) if (x < 10) ]" = .ok table ∧
      table.paths = [p, q] ∧ p.tuple table.declarations = .ok (some a) ∧
      q.tuple table.declarations = .ok (some b) ∧ a.meets b = true ∧
      ∃ c, a.intersect? b = some c ∧ (p ++ q).tuple table.declarations = .ok (some c) := by
  have hpaths : ((Engine.mk .default).pathTable
      "[ var x: num if (x > 3) if (x < 10) ]").toOption.any
        (fun table => table.declarations = [⟨"x", .num⟩] ∧ table.paths =
          [[.membership "x" (.compares .greater) (.solutions .greater (.ofRatio false 3 1))],
            [.membership "x" (.compares .less) (.solutions .less (.ofRatio false 10 1))]]) =
        true := by
    decide +kernel
  obtain ⟨⟨declarations, paths⟩, htable, hfound⟩ := exists_ok_of_any hpaths
  obtain ⟨rfl, rfl⟩ := of_decide_eq_true hfound
  have hmeets : Tuple.meets
      [.range (.compares .greater) (.solutions .greater (.ofRatio false 3 1))
        (.ofRatio false 1 100)]
      [.range (.compares .less) (.solutions .less (.ofRatio false 10 1))
        (.ofRatio false 1 100)] = true := by
    decide +kernel
  have hboth := tuples_meet_iff htable List.mem_cons_self
    (List.mem_cons_of_mem _ List.mem_cons_self)
    (a := [.range (.compares .greater) (.solutions .greater (.ofRatio false 3 1))
      (.ofRatio false 1 100)])
    (b := [.range (.compares .less) (.solutions .less (.ofRatio false 10 1))
      (.ofRatio false 1 100)]) rfl rfl
  exact ⟨_, _, _, _, _, htable, rfl, rfl, rfl, hmeets, hboth.2 hmeets⟩

/-- A path that only excludes three, and one that stays below ten: taken together they have
a tuple, but their tuples do not meet. -/
theorem inequality_meets_nothing :
    ∃ set table p q a b c, (Engine.mk .default).compile
        "[ var x: num if (x != 3) if (x < 10) ]" = .ok set ∧
      (Engine.mk .default).pathTable "[ var x: num if (x != 3) if (x < 10) ]" = .ok table ∧
      table.paths = [p, q] ∧ p.tuple table.declarations = .ok (some a) ∧
      q.tuple table.declarations = .ok (some b) ∧
      (p ++ q).tuple table.declarations = .ok (some c) ∧ a.meets b = false := by
  have hcompiles : ((Engine.mk .default).compile
      "[ var x: num if (x != 3) if (x < 10) ]").toOption.any
        (fun set => set.tuples.length = 2) = true := by
    decide +kernel
  have hpaths : ((Engine.mk .default).pathTable
      "[ var x: num if (x != 3) if (x < 10) ]").toOption.any
        (fun table => table.declarations = [⟨"x", .num⟩] ∧ table.paths =
          [[.membership "x" (.compares .notEqual) (.solutions .notEqual (.ofRatio false 3 1))],
            [.membership "x" (.compares .less) (.solutions .less (.ofRatio false 10 1))]]) =
        true := by
    decide +kernel
  obtain ⟨set, hset, -⟩ := exists_ok_of_any hcompiles
  obtain ⟨⟨declarations, paths⟩, htable, hfound⟩ := exists_ok_of_any hpaths
  obtain ⟨rfl, rfl⟩ := of_decide_eq_true hfound
  have htogether : (Path.tuple
      [.membership "x" (.compares .notEqual) (.solutions .notEqual (.ofRatio false 3 1)),
        .membership "x" (.compares .less) (.solutions .less (.ofRatio false 10 1))]
      [⟨"x", .num⟩]).toOption.any Option.isSome = true := by
    decide +kernel
  obtain ⟨outcome, houtcome, hsome⟩ := exists_ok_of_any htogether
  obtain ⟨c, rfl⟩ := Option.isSome_iff_exists.mp hsome
  refine ⟨set, _, _, _, [.range (.compares .notEqual) (.solutions .notEqual (.ofRatio false 3 1))
    (.ofRatio false 1 100)], [.range (.compares .less) (.solutions .less (.ofRatio false 10 1))
    (.ofRatio false 1 100)], c, hset, htable, rfl, rfl, rfl, houtcome, ?_⟩
  decide +kernel

/-! ## Other orders -/

/-- **The order of conditions does not matter.**  A path has the same tuple in every order
of its requirements, or fails with the same error, or has none in any order.  If the
decisions of a compiled text are rearranged, the text still compiles, to the same
tuples. -/
theorem tuples_ignore_order (h : engine.pathTable source = .ok table) :
    (∀ path ∈ table.paths, ∀ path', path.Perm path' →
        Agree SameValue (Path.tuple path table.declarations)
          (Path.tuple path' table.declarations)) ∧
      ∀ source' feature feature' set, engine.parse source = .ok feature →
        engine.parse source' = .ok feature' → feature.Rearranged feature' →
          engine.compile source = .ok set →
            ∃ set', engine.compile source' = .ok set' ∧
              set'.declarations = set.declarations ∧ (set.tuples == set'.tuples) = true := by
  constructor
  · obtain ⟨hregular, hprecise⟩ := pathTable_regular h
    intro path hpath path' hperm
    exact Path.tuple_perm hperm (hregular path hpath) hprecise
  · intro source' feature feature' set hfeature hfeature' hrearranged hset
    obtain ⟨found, hfound, hcompiled⟩ := bind_eq_ok hset
    obtain rfl : feature = found := Except.ok.inj (hfeature.symm.trans hfound)
    obtain ⟨hpasses, table, htable, htuples⟩ :=
      Compiler.compile_eq_ok_iff.mp (mapError_eq_ok hcompiled)
    obtain ⟨table', htable', hdeclarations, hpaths⟩ := hrearranged.pathTable.exists_ok htable
    obtain ⟨hregular, hprecise⟩ := regular_of_parse hfeature htable
    obtain ⟨set', hset', hsame⟩ :=
      (PathTable.tupleSet_perm hdeclarations hpaths hregular hprecise).exists_ok htuples
    have hcompiled' := Compiler.compile_eq_ok_iff.mpr
      ⟨hrearranged.passes hpasses, table', htable', hset'⟩
    refine ⟨set', ?_, hsame⟩
    rw [compile, hfeature']
    exact congrArg (Except.mapError EngineError.compile) hcompiled'

/-- Two nested decisions exchanged, and the conditions of one of them in the other order. -/
theorem tuples_ignore_order_exchanged :
    ∃ table path path' set set',
      (Engine.mk .default).pathTable
          "[ var x : num if ( x != 3 && x < 10 ) \x7b if ( x > 0 ) \x7d ]" = .ok table ∧
      path ∈ table.paths ∧ path.Perm path' ∧ path ≠ path' ∧
      Agree SameValue (Path.tuple path table.declarations)
        (Path.tuple path' table.declarations) ∧
      (Engine.mk .default).compile
          "[ var x : num if ( x != 3 && x < 10 ) \x7b if ( x > 0 ) \x7d ]" = .ok set ∧
      (Engine.mk .default).compile
          "[ var x : num if ( x > 0 ) \x7b if ( x < 10 && x != 3 ) \x7d ]" = .ok set' ∧
      set.tuples.length = 1 ∧ (set.tuples == set'.tuples) = true := by
  have hparse : (Engine.mk .default).parse
      "[ var x : num if ( x != 3 && x < 10 ) \x7b if ( x > 0 ) \x7d ]" =
        .ok ⟨[⟨"x", .num⟩], [⟨[.comparison "x" .right (.ofRatio false 3 1) .notEqual,
          .comparison "x" .right (.ofRatio false 10 1) .less],
            some [.leaf [.comparison "x" .right (.ofRatio false 0 1) .greater]], [], none⟩], []⟩ :=
    parse_written ⟨fun _ => .right, fun _ => true⟩ (by decide +kernel) (by decide +kernel)
  have hparse' : (Engine.mk .default).parse
      "[ var x : num if ( x > 0 ) \x7b if ( x < 10 && x != 3 ) \x7d ]" =
        .ok ⟨[⟨"x", .num⟩], [⟨[.comparison "x" .right (.ofRatio false 0 1) .greater],
          some [.leaf [.comparison "x" .right (.ofRatio false 10 1) .less,
            .comparison "x" .right (.ofRatio false 3 1) .notEqual]], [], none⟩], []⟩ :=
    parse_written ⟨fun _ => .right, fun _ => true⟩ (by decide +kernel) (by decide +kernel)
  have hpaths : ((Engine.mk .default).pathTable
      "[ var x : num if ( x != 3 && x < 10 ) \x7b if ( x > 0 ) \x7d ]").toOption.any
        (fun table => table.paths.any fun path => decide (path ≠ path.reverse)) = true := by
    decide +kernel
  have hcompiles : ((Engine.mk .default).compile
      "[ var x : num if ( x != 3 && x < 10 ) \x7b if ( x > 0 ) \x7d ]").toOption.any
        (fun set => set.tuples.length = 1) = true := by
    decide +kernel
  obtain ⟨table, htable, hany⟩ := exists_ok_of_any hpaths
  obtain ⟨path, hpath, hne⟩ := List.any_eq_true.mp hany
  obtain ⟨set, hset, hlength⟩ := exists_ok_of_any hcompiles
  obtain ⟨hperm, hcompile⟩ := tuples_ignore_order htable
  obtain ⟨set', hset', -, hsame⟩ := hcompile _ _ _ set hparse hparse'
    ⟨rfl, (Rearranged.nested _ _ none).trans
      (.body _ [] none (.conditions (.swap _ _ []) none [] none)), rfl⟩ hset
  exact ⟨table, path, path.reverse, set, set', htable, hpath, path.reverse_perm.symm,
    of_decide_eq_true hne, hperm path hpath _ path.reverse_perm.symm, hset, hset',
    of_decide_eq_true hlength, hsame⟩

/-! ## Joins of several tuples -/

/-- Two tuples join to equal tuples in either order, or in neither, and of three it does not
matter which two are joined first: both ways give equal tuples, or none. -/
structure JoinInAnyOrder (a b c : Tuple) : Prop where
  /-- The order of two tuples does not count. -/
  comm : SameValue (a.intersect? b) (b.intersect? a)
  /-- The grouping of three tuples does not count. -/
  assoc : SameValue ((a.intersect? b).bind fun both => both.intersect? c)
    ((b.intersect? c).bind fun both => a.intersect? both)

/-- Every tuple of a compiled text can be said of the declared variables, and their
precisions are numbers. -/
theorem regular_of_compile {set : TupleSet} (h : engine.compile source = .ok set) :
    (∀ tuple ∈ set.tuples, tuple.Regular set.declarations) ∧
      ∀ declared ∈ set.declarations, declared.type.precision? ≠ some .nan := by
  obtain ⟨feature, table, hfeature, htable, hset⟩ := compile_stages h
  obtain ⟨hregular, hprecise⟩ := regular_of_parse hfeature htable
  rw [(PathTable.tupleSet_eq_ok hset).1]
  refine ⟨fun tuple htuple => ?_, hprecise⟩
  obtain ⟨path, hpath, hcomputed⟩ := PathTable.exists_path_of_mem hset htuple
  exact Path.regular_of_tuple (hregular path hpath) hcomputed

/-- **Tuples of a compiled text combine in any order.** -/
theorem tuples_join_in_any_order {set : TupleSet} (h : engine.compile source = .ok set)
    {a b c : Tuple} (ha : a ∈ set.tuples) (hb : b ∈ set.tuples) (hc : c ∈ set.tuples) :
    JoinInAnyOrder a b c := by
  obtain ⟨hregular, hprecise⟩ := regular_of_compile h
  exact ⟨(hregular a ha).joins_comm hprecise (hregular b hb),
    (hregular a ha).joins_assoc hprecise (hregular b hb) (hregular c hc)⟩

/-- Three tuples that can hold together: a half-line, two intervals, and a truth value. -/
theorem tuples_join_in_any_order_three :
    ∃ set a b c, (Engine.mk .default).compile
        "[ var x: num var y: bool if (x < 9) if (x != 3 && x > 0) if (y = true) ]" = .ok set ∧
      set.tuples = [a, b, c] ∧ ((a.intersect? b).bind fun both => both.intersect? c).isSome ∧
      JoinInAnyOrder a b c := by
  obtain ⟨letters, hletters, hcompiles⟩ : ∃ letters,
      "[ var x: num var y: bool if (x < 9) if (x != 3 && x > 0) if (y = true) ]".toList = letters ∧
        (((Feature.parse letters).mapError .parse >>= fun feature =>
          ((Compiler.new (Engine.mk .default).settings.compiler).compile feature).2.mapError
            EngineError.compile).toOption.any fun set => set.tuples.length == 3 &&
              set.tuples.all fun a => set.tuples.all fun b => set.tuples.all fun c =>
                ((a.intersect? b).bind fun both => both.intersect? c).isSome) = true :=
    ⟨_, String.toList_ofList, by decide +kernel⟩
  rw [← hletters] at hcompiles
  obtain ⟨set, hset, hjoin⟩ := exists_ok_of_any hcompiles
  simp only [Bool.and_eq_true, beq_iff_eq, List.all_eq_true] at hjoin
  obtain ⟨a, b, c, htuples⟩ := List.length_eq_three.mp hjoin.1
  have ha : a ∈ set.tuples := by simp [htuples]
  have hb : b ∈ set.tuples := by simp [htuples]
  have hc : c ∈ set.tuples := by simp [htuples]
  exact ⟨set, a, b, c, hset, htuples, hjoin.2 a ha b hb c hc,
    tuples_join_in_any_order hset ha hb hc⟩

end Engine
end DecisionTuples
