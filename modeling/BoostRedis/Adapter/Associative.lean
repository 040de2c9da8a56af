import BoostRedis.Adapter.Containers

/-!
# Nested aggregates in sets and maps

A set is read from a set and a map from a map or an attribute.  The adapters see one node after the
other and look at the type of an aggregate, but not at its depth.  So they refuse an aggregate of
another type among the elements, and take the elements of one that has the type of the reply as
elements of the container.

Hence a nested reply is refused exactly if some node of it is: an aggregate of another type, or an
element that is not converted.  This has to come before a streamed string, for which an assertion
fails.
-/

namespace Redis

open Resp3

/-! ### Replies with aggregates among their elements -/

/-- Whether a value is an aggregate. -/
def isAggregateValue : Value → Bool
  | .aggregate _ _ _ => true
  | _ => false

/-- Whether there is an aggregate among the elements of a reply. -/
def isNested : Value → Bool
  | .aggregate _ _ elements => elements.any isAggregateValue
  | _ => false

/-- Keys and values take turns. -/
def turn (onKey : Bool) (nd : Node) : Bool := if isAggregate nd.dataType then onKey else !onKey

namespace ElementType

/-- Sets and maps. -/
def isAssociative : ElementType → Bool
  | set _ _ | map _ _ _ => true
  | _ => false

/-- What should hold of a reply that is read into a set or a map: if it is taken in, it is a single
level of elements that are not aggregates, and an error code is set if it is nested. -/
structure RefusesNested (t : ElementType) (v : Resp3.Value) : Prop where
  single : ∀ r, t.read (v.nodes 0) = .ok (.ok r, none) →
    ∃ dt size elements, v = .aggregate dt size elements ∧ t.accepts dt = true
      ∧ elements.all isScalar = true
  nested : isNested v = true → ∃ r ec, t.read (v.nodes 0) = .ok (r, some ec)

/-- Whether a node is refused: it is an aggregate of another type, or is not converted to a key or
a value. -/
def refuses (t : ElementType) (onKey : Bool) (nd : Node) : Bool :=
  if isAggregate nd.dataType then !t.accepts nd.dataType
  else
    match t with
    | set _ K => (convert K nd).isNone
    | map _ K V => if onKey then (convert K nd).isNone else (convert V nd).isNone
    | _ => false

/-- Whether a node is refused before a streamed string comes. -/
def refusesInTime (t : ElementType) (onKey : Bool) : List Node → Bool
  | [] => false
  | nd :: nds =>
      nd.dataType ≠ .streamedString &&
        (t.refuses onKey nd || t.refusesInTime (turn onKey nd) nds)

end ElementType

/-! ### The nodes below an aggregate -/

/-- A node of a reply that is an aggregate: a node that is not an aggregate counts as one element,
unless a streamed string starts with it, and is below the reply. -/
structure Inner (nd : Node) : Prop where
  size : isAggregate nd.dataType = false → (nd.aggregateSize = 1 ↔ nd.dataType ≠ .streamedString)
  depth : isAggregate nd.dataType = false → ¬ nd.depth < 1

theorem Inner.size_ne {nd : Node} (h : Inner nd) (hagg : isAggregate nd.dataType = false)
    (hstreamed : nd.dataType = .streamedString) :
  nd.aggregateSize ≠ 1
  := by
  rw [ne_eq, h.size hagg, not_not]
  exact hstreamed

section Inner

open Value

mutual

theorem inner_of_mem_nodes {depth : ℕ} :
  ∀ {v : Value} {nd : Node}, v.wellFormed = true → nd ∈ v.nodes (depth + 1) → Inner nd
  | .simple t content, nd, hwf, h => by
      obtain rfl := List.mem_singleton.mp h
      have ht : t ≠ .streamedString := by
        rintro rfl
        simp [wellFormed, simpleContent] at hwf
      exact ⟨fun _ => iff_of_true rfl ht, fun _ => by simp⟩
  | .bulk t blob, nd, hwf, h => by
      obtain rfl := List.mem_singleton.mp h
      have ht : t ≠ .streamedString := by
        rintro rfl
        simp [wellFormed, isBulk] at hwf
      exact ⟨fun _ => iff_of_true rfl ht, fun _ => by simp⟩
  | .streamed parts, nd, _, h => by
      rw [nodes, List.mem_cons, List.mem_map] at h
      rcases h with rfl | ⟨part, _, rfl⟩
      · exact ⟨fun _ => by simp, fun _ => by simp⟩
      · exact ⟨fun _ => by simp, fun _ => by simp⟩
  | .aggregate t size elements, nd, hwf, h => by
      rw [wellFormed, Bool.and_eq_true, Bool.and_eq_true] at hwf
      rcases List.mem_cons.mp h with rfl | h
      · have ht : isAggregate t ≠ false := by simp [hwf.1.1]
        exact ⟨fun hfalse => absurd hfalse ht, fun hfalse => absurd hfalse ht⟩
      · apply inner_of_mem_nodesAll hwf.2 h

theorem inner_of_mem_nodesAll {depth : ℕ} :
  ∀ {vs : List Value} {nd : Node}, wellFormedAll vs = true → nd ∈ nodesAll (depth + 1) vs →
    Inner nd
  | [], _, _, h => by
      cases h
  | v :: vs, nd, hwf, h => by
      rw [wellFormedAll, Bool.and_eq_true] at hwf
      rcases List.mem_append.mp h with h | h
      · apply inner_of_mem_nodes hwf.1 h
      · apply inner_of_mem_nodesAll hwf.2 h

end

end Inner

/-! ### One node -/

/-- What an adapter does with a node: it refuses the node, an assertion fails for a streamed string,
or the node is taken in. -/
inductive Verdict {σ : Type} (P : σ → Prop) (refused streamed : Bool) : Fed σ → Prop where
  | refuses (s : σ) (ec : ErrorCode) :
      refused = true → streamed = false → Verdict P refused streamed (.ok (s, some ec))
  | fails (e : Thrown) : streamed = true → Verdict P refused streamed (.error e)
  | takes (s : σ) :
      refused = false → streamed = false → P s → Verdict P refused streamed (.ok (s, none))

section Verdicts

variable {T K V σ : Type} [FromBulk T] [FromBulk K] [DecidableEq K] [FromBulk V] {nd : Node}
  {P : σ → Prop} {left : Fed σ} {refused : Bool}

/-- Only the type of an aggregate matters. -/
theorem Verdict.of_aggregate {t : ElementType} {s : σ} {ec : ErrorCode} (onKey : Bool)
    (hagg : isAggregate nd.dataType = true)
    (h : left = .ok (s, if t.accepts nd.dataType then none else some ec)) (hs : P s) :
  Verdict P (t.refuses onKey nd) (nd.dataType = .streamedString) left
  := by
  have hstreamed : decide (nd.dataType = .streamedString) = false := by
    apply decide_eq_false
    intro hstreamed
    rw [hstreamed] at hagg
    cases hagg
  have hrefused : t.refuses onKey nd = !t.accepts nd.dataType := if_pos hagg
  rw [h, hrefused, hstreamed]
  cases t.accepts nd.dataType with
  | true => exact .takes s rfl rfl hs
  | false => exact .refuses s ec rfl rfl

theorem Verdict.of_streamed {e : Thrown} (hstreamed : nd.dataType = .streamedString)
    (h : left = .error e) :
  Verdict P refused (nd.dataType = .streamedString) left
  := by
  rw [h]
  apply Verdict.fails e (decide_eq_true hstreamed)

/-- An element is taken in if it is converted. -/
theorem Verdict.of_element {f : T → σ} (hstreamed : nd.dataType ≠ .streamedString)
    (hrefused : refused = (convert T nd).isNone)
    (h : left = .ok (f (FromBulk.fromBulk nd FromBulk.initial).1,
      (FromBulk.fromBulk nd (FromBulk.initial : T)).2)) (hs : ∀ x, P (f x)) :
  Verdict P refused (nd.dataType = .streamedString) left
  := by
  rw [h, hrefused, convert]
  rcases FromBulk.fromBulk nd (FromBulk.initial : T) with ⟨x, _ | ec⟩
  · exact .takes _ rfl (decide_eq_false hstreamed) (hs x)
  · exact .refuses _ ec rfl (decide_eq_false hstreamed)

theorem setImpl_verdict (mult : Multiplicity) (hnd : Inner nd) (onKey : Bool) (keys : List K) :
  Verdict (fun s => s.2 = true) ((ElementType.set mult K).refuses onKey nd)
    (nd.dataType = .streamedString) ((setImpl mult K).feed nd (keys, true))
  := by
  cases hagg : isAggregate nd.dataType with
  | true =>
      have hfeed : (setImpl mult K).feed nd (keys, true) = .ok ((keys, true),
          if (ElementType.set mult K).accepts nd.dataType then none
          else some (.redis .expectsResp3Set)) := by
        simp [setImpl, hagg, ElementType.accepts]
      exact Verdict.of_aggregate onKey hagg hfeed rfl
  | false =>
      have hrefused : (ElementType.set mult K).refuses onKey nd = (convert K nd).isNone := by
        simp [ElementType.refuses, hagg]
      by_cases hstreamed : nd.dataType = .streamedString
      · have hfeed : (setImpl mult K).feed nd (keys, true) = .error .assertion := by
          simp [setImpl, hagg, hnd.size_ne hagg hstreamed]
        apply Verdict.of_streamed hstreamed hfeed
      · have hfeed : (setImpl mult K).feed nd (keys, true)
            = .ok ((insertKey mult (FromBulk.fromBulk nd FromBulk.initial).1 keys, true),
              (FromBulk.fromBulk nd (FromBulk.initial : K)).2) := by
          simp [setImpl, hagg, (hnd.size hagg).mpr hstreamed, hnd.depth hagg]
        apply Verdict.of_element (f := fun k => (insertKey mult k keys, true)) hstreamed hrefused
          hfeed
        intro k
        rfl

/-- A map waits for a key, or for the value of the key it points to. -/
def MapReady (onKey : Bool) (s : List (K × V) × Cursor × Bool) : Prop :=
  s.2.2 = onKey ∧ if onKey then s.2.1 ≠ .singular else ∃ i, s.2.1 = .at i

theorem mapImpl_verdict (mult : Multiplicity) (hnd : Inner nd) (onKey : Bool)
    {s : List (K × V) × Cursor × Bool} (hs : MapReady onKey s) :
  Verdict (MapReady (turn onKey nd)) ((ElementType.map mult K V).refuses onKey nd)
    (nd.dataType = .streamedString) ((mapImpl mult K V).feed nd s)
  := by
  rw [turn]
  cases hagg : isAggregate nd.dataType with
  | true =>
      have hfeed : (mapImpl mult K V).feed nd s = .ok (s,
          if (ElementType.map mult K V).accepts nd.dataType then none
          else some (.redis .expectsResp3Map)) := by
        cases hdt : nd.dataType <;> simp [mapImpl, hdt, isAggregate, ElementType.accepts,
          elementMultiplicity] <;> simp [hdt, isAggregate] at hagg
      exact Verdict.of_aggregate onKey hagg hfeed hs
  | false =>
      obtain ⟨pairs, current, key⟩ := s
      obtain rfl : onKey = key := hs.1.symm
      have hcurrent : if onKey then current ≠ .singular else ∃ i, current = .at i := hs.2
      by_cases hstreamed : nd.dataType = .streamedString
      · have hfeed : (mapImpl mult K V).feed nd (pairs, current, onKey) = .error .assertion := by
          simp [mapImpl, hagg, hnd.size_ne hagg hstreamed]
        apply Verdict.of_streamed hstreamed hfeed
      · have hsize := (hnd.size hagg).mpr hstreamed
        cases onKey with
        | true =>
            rw [if_pos rfl] at hcurrent
            have hfeed : (mapImpl mult K V).feed nd (pairs, current, true)
                = .ok (((insertPair mult (FromBulk.fromBulk nd FromBulk.initial).1 pairs).1,
                    .at (insertPair mult (FromBulk.fromBulk nd FromBulk.initial).1 pairs).2,
                    false),
                  (FromBulk.fromBulk nd (FromBulk.initial : K)).2) := by
              simp [mapImpl, hagg, hsize, hnd.depth hagg, hcurrent]
            apply Verdict.of_element (T := K)
              (f := fun k => ((insertPair mult k pairs).1, .at (insertPair mult k pairs).2, false))
              hstreamed _ hfeed
            · intro k
              exact ⟨rfl, _, rfl⟩
            · simp [ElementType.refuses, hagg]
        | false =>
            obtain ⟨i, rfl⟩ := hcurrent
            have hfeed : (mapImpl mult K V).feed nd (pairs, .at i, false)
                = .ok ((pairs.modify i fun p =>
                      (p.1, (FromBulk.fromBulk nd FromBulk.initial).1), .at i, true),
                  (FromBulk.fromBulk nd (FromBulk.initial : V)).2) := by
              simp [mapImpl, hagg, hsize, hnd.depth hagg]
            apply Verdict.of_element (T := V)
              (f := fun v => (pairs.modify i fun p => (p.1, v), .at i, true)) hstreamed _ hfeed
            · intro v
              exact ⟨rfl, by simp⟩
            · simp [ElementType.refuses, hagg]

end Verdicts

/-! ### All nodes -/

section Runs

variable {t : ElementType} {σ : Type} {feed : Node → σ → Fed σ}

/-- What is left after nodes that an adapter judges one by one: a node was refused in time, an
assertion failed, or all nodes were taken in. -/
inductive Judged (t : ElementType) (onKey : Bool) (nds : List Node) : Fed σ → Prop where
  | refuses (s : σ) (ec : ErrorCode) :
      t.refusesInTime onKey nds = true → Judged t onKey nds (.ok (s, some ec))
  | fails (e : Thrown) : t.refusesInTime onKey nds = false → Judged t onKey nds (.error e)
  | takes (s : σ) :
      t.refusesInTime onKey nds = false → (∀ nd ∈ nds, nd.dataType ≠ .streamedString) →
      Judged t onKey nds (.ok (s, none))

theorem judged_of_verdicts (Ready : Bool → σ → Prop)
    (hstep : ∀ onKey nd s, Inner nd → Ready onKey s →
      Verdict (Ready (turn onKey nd)) (t.refuses onKey nd) (nd.dataType = .streamedString)
        (feed nd s)) :
  ∀ {nds : List Node} {onKey : Bool} {s : σ}, (∀ nd ∈ nds, Inner nd) → Ready onKey s →
    Judged t onKey nds (feedUntil feed nds s)
  | [], _, s, _, _ => .takes s rfl (by simp)
  | nd :: nds, onKey, s, hinner, hs => by
      obtain ⟨hnd, hnds⟩ := List.forall_mem_cons.mp hinner
      have hscan : t.refusesInTime onKey (nd :: nds)
          = (decide (nd.dataType ≠ .streamedString) &&
            (t.refuses onKey nd || t.refusesInTime (turn onKey nd) nds)) := rfl
      have hverdict := hstep onKey nd s hnd hs
      rw [feedUntil_cons]
      generalize feed nd s = left at hverdict ⊢
      cases hverdict with
      | refuses s' ec hrefused hstreamed =>
          apply Judged.refuses
          simpa [hscan, hrefused] using hstreamed
      | fails e hstreamed =>
          apply Judged.fails
          rw [decide_eq_true_eq] at hstreamed
          simp [hscan, hstreamed]
      | takes s' hrefused hstreamed hready =>
          rw [decide_eq_false_iff_not] at hstreamed
          have hrest := judged_of_verdicts Ready hstep hnds hready
          have heq : t.refusesInTime onKey (nd :: nds) = t.refusesInTime (turn onKey nd) nds := by
            simp [hscan, hrefused, hstreamed]
          rw [feedUntil.resume]
          generalize feedUntil feed nds s' = left at hrest ⊢
          cases hrest with
          | refuses s ec h => exact .refuses s ec (heq.trans h)
          | fails e h => exact .fails e (heq.trans h)
          | takes s h hnone =>
              exact .takes s (heq.trans h) (List.forall_mem_cons.mpr ⟨hstreamed, hnone⟩)

/-- A reply that is an aggregate is judged by the adapter of a set or a map. -/
theorem ElementType.judged (ht : t.isAssociative = true) {nds : List Node}
    (h : ∀ nd ∈ nds, Inner nd) :
  Judged t true nds (feedUntil t.impl.feed nds t.impl.ready)
  := by
  cases t with
  | set mult K =>
      apply judged_of_verdicts (fun _ (s : List K × Bool) => s.2 = true) _ h rfl
      rintro onKey nd ⟨keys, _⟩ hnd rfl
      apply setImpl_verdict mult hnd
  | map mult K V =>
      have hready : MapReady true (mapImpl mult K V).ready := ⟨rfl, by rintro ⟨⟩⟩
      apply judged_of_verdicts MapReady _ h hready
      intro onKey nd s hnd hs
      apply mapImpl_verdict mult hnd onKey hs
  | simple | vector | array | list => cases ht

end Runs

/-! ### Nested replies -/

theorem isScalar_of_mem {elements : List Value} (hnested : elements.any isAggregateValue = false)
    (hstreamed : ∀ nd ∈ Value.nodesAll 1 elements, nd.dataType ≠ .streamedString) :
  elements.all isScalar = true
  := by
  induction elements with
  | nil => rfl
  | cons v vs ih =>
      rw [List.any_cons, Bool.or_eq_false_iff] at hnested
      rw [Value.nodesAll] at hstreamed
      rw [List.all_cons, ih hnested.2 (fun nd hnd => hstreamed nd (List.mem_append_right _ hnd)),
        Bool.and_true]
      cases v with
      | simple | bulk => rfl
      | streamed parts =>
          exact absurd rfl (hstreamed _ (List.mem_append_left _ List.mem_cons_self))
      | aggregate => cases hnested.1

/-- A reply that is not an aggregate is not taken in by a set or a map. -/
theorem read_ne_of_not_aggregate {t : ElementType} (ht : t.isAssociative = true)
    {v : Value} (hwf : v.wellFormed = true) (hv : isAggregateValue v = false) (r : t.Value) :
  t.read (v.nodes 0) ≠ .ok (.ok r, none)
  := by
  have hchecks : t.checksDepth = true := by
    cases t <;> first | rfl | cases ht
  have hscalar : ∀ {dt content}, isAggregate dt = false →
      t.read [⟨dt, 1, 0, content⟩] ≠ .ok (.ok r, none) := by
    intro dt content hdt
    by_cases hstored : (isErrorType dt || dt = .null) = true
    · have hread : t.read [⟨dt, 1, 0, content⟩] = mapState WrapperState.result
          (feedUntil (feedValue t.impl) [⟨dt, 1, 0, content⟩]
            ⟨.ok t.impl.initial, t.impl.onValueAvailable t.impl.start, false⟩) := rfl
      rw [hread, feedUntil_singleton, feedValue_error hstored]
      rintro ⟨⟩
    · obtain ⟨⟨ec, hfeed⟩, _⟩ := ElementType.feed_scalar hchecks hdt content
      simp only [Bool.or_eq_true, decide_eq_true_eq, not_or, Bool.not_eq_true] at hstored
      rw [t.read_eq hstored.1 hstored.2, feedUntil_singleton, hfeed]
      rintro ⟨⟩
  cases v with
  | simple dt content =>
      apply hscalar (isAggregate_of_simpleContent (by simpa [Value.wellFormed] using hwf))
  | bulk dt blob =>
      apply hscalar (isAggregate_of_isBulk (by simpa [Value.wellFormed] using hwf))
  | streamed parts =>
      -- A streamed string starts with a node that counts as no element.
      rw [Value.nodes, t.read_eq rfl (by simp), feedUntil_cons]
      cases t with
      | set | map => rintro ⟨⟩
      | simple | vector | array | list => cases ht
  | aggregate => cases hv

section Aggregate

variable {t : ElementType} {dt : DataType} {size : ℕ} {elements : List Value}

/-- A reply that is an aggregate is judged. -/
theorem read_judged (ht : t.isAssociative = true)
    (hwf : (Value.aggregate dt size elements).wellFormed = true) :
  ∃ left : Fed (t.Value × t.impl.State),
    t.read ((Value.aggregate dt size elements).nodes 0) = mapState (fun p => .ok p.1) left
      ∧ Judged t true ((Value.aggregate dt size elements).nodes 0) left
  := by
  simp only [Value.wellFormed, Bool.and_eq_true] at hwf
  obtain ⟨⟨hdt, _⟩, helements⟩ := hwf
  have hinner : ∀ nd ∈ (Value.aggregate dt size elements).nodes 0, Inner nd := by
    refine List.forall_mem_cons.mpr ⟨?_, fun nd hnd => inner_of_mem_nodesAll helements hnd⟩
    constructor <;> intro h <;> rw [hdt] at h <;> cases h
  refine ⟨_, ?_, ElementType.judged ht hinner⟩
  rw [Value.nodes, t.read_aggregate hdt, feedUntil_cons]

/-- An error code is set exactly if a node is refused in time. -/
theorem read_error_iff (ht : t.isAssociative = true)
    (hwf : (Value.aggregate dt size elements).wellFormed = true) :
  (∃ r ec, t.read ((Value.aggregate dt size elements).nodes 0) = .ok (r, some ec))
    ↔ t.refusesInTime true ((Value.aggregate dt size elements).nodes 0) = true
  := by
  obtain ⟨left, hread, hjudged⟩ := read_judged ht hwf
  rw [hread]
  cases hjudged with
  | refuses s ec h => exact iff_of_true ⟨_, ec, rfl⟩ h
  | fails e h =>
      rw [h]
      apply iff_of_false _ Bool.false_ne_true
      rintro ⟨r, ec, ⟨⟩⟩
  | takes s h =>
      rw [h]
      apply iff_of_false _ Bool.false_ne_true
      rintro ⟨r, ec, ⟨⟩⟩

/-- Nothing is refused in a reply that is taken in, and no streamed string is in it. -/
theorem not_refused_of_read (ht : t.isAssociative = true)
    (hwf : (Value.aggregate dt size elements).wellFormed = true) {r : t.Value}
    (h : t.read ((Value.aggregate dt size elements).nodes 0) = .ok (.ok r, none)) :
  t.refusesInTime true ((Value.aggregate dt size elements).nodes 0) = false
    ∧ ∀ nd ∈ (Value.aggregate dt size elements).nodes 0, nd.dataType ≠ .streamedString
  := by
  obtain ⟨left, hread, hjudged⟩ := read_judged ht hwf
  rw [hread] at h
  cases hjudged with
  | refuses s ec => cases h
  | fails e => cases h
  | takes s hscan hstreamed => exact ⟨hscan, hstreamed⟩

/-- The header of a reply is refused if it has another type. -/
theorem accepts_of_not_refused (hdt : isAggregate dt = true)
    (hstreamed : dt ≠ .streamedString) {nds : List Node}
    (h : t.refusesInTime true (⟨dt, size, 0, []⟩ :: nds) = false) :
  t.accepts dt = true
  := by
  have hheader : t.refuses true ⟨dt, size, 0, []⟩ = !t.accepts dt := if_pos hdt
  simp only [ElementType.refusesInTime, hheader, decide_eq_true hstreamed, Bool.true_and,
    Bool.or_eq_false_iff, Bool.not_eq_false'] at h
  exact h.1

end Aggregate

/-- A nested reply is refused by a set or a map, and only a single level is taken in, exactly if an
aggregate among the elements comes with a node that is refused in time. -/
theorem refusesNested_iff (t : ElementType) (ht : t.isAssociative = true) (v : Value)
    (hwf : v.wellFormed = true) :
  t.RefusesNested v ↔ (isNested v = true → t.refusesInTime true (v.nodes 0) = true)
  := by
  cases v with
  | simple | bulk | streamed =>
      apply iff_of_true _ (fun h => by cases h)
      exact ⟨fun r h => absurd h (read_ne_of_not_aggregate ht hwf rfl r),
        fun h => by cases h⟩
  | aggregate dt size elements =>
      constructor
      · intro h hnested
        apply (read_error_iff ht hwf).mp (h.nested hnested)
      · intro h
        constructor
        · intro r hr
          obtain ⟨hscan, hstreamed⟩ := not_refused_of_read ht hwf hr
          have hflat : elements.any isAggregateValue = false := by
            rw [Bool.eq_false_iff]
            intro hnested
            rw [h hnested] at hscan
            cases hscan
          have hdt : isAggregate dt = true := by
            simp only [Value.wellFormed, Bool.and_eq_true] at hwf
            exact hwf.1.1
          obtain ⟨hheader, helements⟩ := List.forall_mem_cons.mp hstreamed
          exact ⟨dt, size, elements, rfl, accepts_of_not_refused hdt hheader hscan,
            isScalar_of_mem hflat helements⟩
        · intro hnested
          apply (read_error_iff ht hwf).mpr (h hnested)

/-- An array among the elements of a set. -/
theorem refusesNested_array :
  (ElementType.set .unique Bytes).RefusesNested
    (.aggregate .set 1 [.aggregate .array 1 [.simple .simpleString (ascii "a")]])
  := by
  apply (refusesNested_iff (.set .unique Bytes) rfl _ (by decide)).mpr
  intro _
  rfl

/-- The elements of a set in a set are taken as elements of the set, and a map in a map shifts the
keys and the values. -/
theorem refusesNested_fails :
  let nestedSet : Value := .aggregate .set 1 [.aggregate .set 1 [.simple .simpleString (ascii "a")]]
  let nestedMap : Value := .aggregate .map 1 [.simple .simpleString (ascii "a"),
    .aggregate .map 1 [.simple .simpleString (ascii "b"), .simple .simpleString (ascii "c")]]
  (ElementType.set .unique Bytes).read (nestedSet.nodes 0) = .ok (.ok [ascii "a"], none)
    ∧ (ElementType.map .unique Bytes Bytes).read (nestedMap.nodes 0)
      = .ok (.ok [(ascii "a", ascii "b"), (ascii "c", [])], none)
    ∧ ¬ (ElementType.set .unique Bytes).RefusesNested nestedSet
    ∧ ¬ (ElementType.map .unique Bytes Bytes).RefusesNested nestedMap
  := by
  intro nestedSet nestedMap
  have hset : (ElementType.set .unique Bytes).read (nestedSet.nodes 0)
      = .ok (.ok [ascii "a"], none) := rfl
  have hmap : (ElementType.map .unique Bytes Bytes).read (nestedMap.nodes 0)
      = .ok (.ok [(ascii "a", ascii "b"), (ascii "c", [])], none) := rfl
  refine ⟨hset, hmap, ?_, ?_⟩
  · intro h
    obtain ⟨r, ec, hread⟩ := h.nested rfl
    rw [hset] at hread
    cases hread
  · intro h
    obtain ⟨r, ec, hread⟩ := h.nested rfl
    rw [hmap] at hread
    cases hread

end Redis
