import BoostRedis.Adapter.Types
import BoostRedis.Resp3.RoundTrip

/-!
# Tuples

The adapter of a tuple is given the nodes of an aggregate, and passes each on to the adapter of an
element.  It does not walk the tree: an aggregate at depth one sets a counter to the number of its
elements, every node counts it down, and the next element begins when it is at zero.

So an element is passed its first node, and as many after that as its header declares elements.
That is its subtree exactly if the element is flat, which is to say that each of its own elements
is a single node.
-/

namespace Resp3.Value

/-! ### Flat values -/

/-- Whether a value is a single node. -/
def isLeaf : Value → Bool
  | simple _ _ | bulk _ _ | aggregate _ _ [] => true
  | streamed _ | aggregate _ _ (_ :: _) => false

/-- Whether a value is one node, or an aggregate of values that are one node each. -/
def isFlat : Value → Bool
  | simple _ _ | bulk _ _ => true
  | streamed _ => false
  | aggregate _ _ elements => elements.all isLeaf

/-- The number of nodes that are counted for a value. -/
def quota : Value → ℕ
  | aggregate _ _ elements => elements.length + 1
  | _ => 1

theorem length_nodes_pos (depth : ℕ) (v : Value) :
  0 < (v.nodes depth).length
  := by
  obtain ⟨nd, nds, hnodes, _⟩ := v.exists_nodes_eq_cons depth
  rw [hnodes]
  apply Nat.succ_pos

theorem length_le_nodesAll (depth : ℕ) :
  ∀ vs : List Value, vs.length ≤ (nodesAll depth vs).length
  | [] => le_rfl
  | v :: vs => by
      have hrest := length_le_nodesAll depth vs
      have hpos := v.length_nodes_pos depth
      rw [nodesAll, List.length_append, List.length_cons]
      omega

/-- A leaf is a value with a single node. -/
theorem length_nodes_eq_one_iff (depth : ℕ) {v : Value} :
  (v.nodes depth).length = 1 ↔ v.isLeaf = true
  := by
  cases v with
  | simple | bulk => simp [nodes, isLeaf]
  | streamed parts => simp [nodes, isLeaf]
  | aggregate t size elements =>
      cases elements with
      | nil => simp [nodes, nodesAll, isLeaf]
      | cons v vs =>
          have hlength := length_le_nodesAll (depth + 1) (v :: vs)
          rw [List.length_cons] at hlength
          simp only [nodes, List.length_cons, isLeaf, Bool.false_eq_true, iff_false]
          omega

theorem length_nodesAll_eq_iff (depth : ℕ) :
  ∀ {vs : List Value}, (nodesAll depth vs).length = vs.length ↔ vs.all isLeaf = true
  | [] => by
      simp [nodesAll]
  | v :: vs => by
      have hrest := length_le_nodesAll depth vs
      have hpos := v.length_nodes_pos depth
      rw [nodesAll, List.length_append, List.length_cons, List.all_cons, Bool.and_eq_true,
        ← length_nodesAll_eq_iff depth, ← length_nodes_eq_one_iff depth]
      omega

theorem quota_le (depth : ℕ) (v : Value) :
  v.quota ≤ (v.nodes depth).length
  := by
  cases v with
  | simple | bulk | streamed => apply length_nodes_pos
  | aggregate t size elements =>
      apply Nat.succ_le_succ
      apply length_le_nodesAll

/-- A value is flat if it has no more nodes than are counted for it. -/
theorem length_nodes_eq_quota_iff (depth : ℕ) {v : Value} :
  (v.nodes depth).length = v.quota ↔ v.isFlat = true
  := by
  cases v with
  | simple | bulk => simp [nodes, isFlat, quota]
  | streamed parts => simp [nodes, isFlat, quota]
  | aggregate t size elements =>
      rw [isFlat, ← length_nodesAll_eq_iff (depth + 1)]
      simp [nodes, quota]

mutual

/-- The nodes of a value are at its depth, or below. -/
theorem le_depth_of_mem_nodes {depth : ℕ} :
  ∀ {v : Value} {nd : Node}, nd ∈ v.nodes depth → depth ≤ nd.depth
  | simple _ _, _, h | bulk _ _, _, h => by
      rw [nodes, List.mem_singleton] at h
      rw [h]
  | streamed parts, nd, h => by
      rw [nodes, List.mem_cons, List.mem_map] at h
      rcases h with rfl | ⟨_, _, rfl⟩ <;> apply Nat.le_succ
  | aggregate t size elements, nd, h => by
      rw [nodes, List.mem_cons] at h
      rcases h with rfl | h
      · rfl
      · exact (Nat.le_succ depth).trans (le_depth_of_mem_nodesAll h)

/-- The nodes of several values are at their depth, or below. -/
theorem le_depth_of_mem_nodesAll {depth : ℕ} :
  ∀ {vs : List Value} {nd : Node}, nd ∈ nodesAll depth vs → depth ≤ nd.depth
  | [], _, h => by
      cases h
  | v :: vs, nd, h => by
      rw [nodesAll, List.mem_append] at h
      rcases h with h | h
      · apply le_depth_of_mem_nodes h
      · apply le_depth_of_mem_nodesAll h

end

end Resp3.Value

namespace Redis

open Resp3

theorem isAggregate_of_simpleContent {t : DataType} {content : Bytes}
    (h : simpleContent t content = true) :
  isAggregate t = false
  := by
  cases t <;> first | rfl | simp [simpleContent] at h

theorem isAggregate_of_isBulk {t : DataType} (h : isBulk t = true) :
  isAggregate t = false
  := by
  cases t <;> first | rfl | cases h

section Calls

variable {n : ℕ} {elements : Fin n → ResultAdapter}

/-! ### The calls of the adapters of the elements -/

namespace TupleState

/-- The nodes that are passed on, each with the index of the element. -/
def calls (s : TupleState elements) : List Node → List (ℕ × Node)
  | [] => []
  | nd :: nds => if nd.depth = 0 then s.calls nds else (s.i, nd) :: (s.count nd).calls nds

/-- The state at the beginning of the next element. -/
def next (s : TupleState elements) : TupleState elements :=
  { s with i := s.i + 1, aggregateSize := 0 }

variable {s : TupleState elements} {nd : Node} {nds rest : List Node}

theorem calls_cons (h : nd.depth ≠ 0) :
  s.calls (nd :: nds) = (s.i, nd) :: (s.count nd).calls nds
  := by
  rw [calls, if_neg h]

/-- A node that is no aggregate at depth one ends the element if the counter is at zero. -/
theorem count_eq_next (h : (nd.depth = 1 && isAggregate nd.dataType) = false)
    (hzero : s.aggregateSize = 0) :
  s.count nd = s.next
  := by
  simp [count, h, hzero, next]

/-- A node that is no aggregate at depth one is counted. -/
theorem count_eq_pred {c : ℕ} (h : (nd.depth = 1 && isAggregate nd.dataType) = false)
    (hsucc : s.aggregateSize = c + 1) :
  s.count nd = { s with aggregateSize := c }
  := by
  simp [count, h, hsucc]

/-- An aggregate at depth one sets the counter to the number of its elements. -/
theorem count_header {t : DataType} {size c : ℕ} (ht : isAggregate t = true)
    (hc : elementMultiplicity t * size % 2 ^ 64 = c) :
  s.count ⟨t, size, 1, []⟩ = if c = 0 then s.next else { s with aggregateSize := c - 1 }
  := by
  rw [← hc]
  simp [count, ht, next]

theorem le_i_count :
  s.i ≤ (s.count nd).i
  := by
  simp only [count, apply_ite TupleState.i]
  split_ifs <;> simp

/-- The counter is counted down by the nodes below. -/
theorem calls_countdown :
  ∀ {nds : List Node} {s : TupleState elements}, (∀ nd ∈ nds, 2 ≤ nd.depth) →
    nds.length = s.aggregateSize + 1 →
    s.calls (nds ++ rest) = nds.map (s.i, ·) ++ s.next.calls rest
  | [], _, _, hlength => by
      cases hlength
  | nd :: nds, s, hdepth, hlength => by
      obtain ⟨hnd, hrest⟩ := List.forall_mem_cons.mp hdepth
      have hinner : (nd.depth = 1 && isAggregate nd.dataType) = false := by
        rw [Bool.and_eq_false_iff, decide_eq_false_iff_not]
        left
        omega
      rw [List.cons_append, calls_cons (by omega), List.map_cons, List.cons_append]
      cases hsize : s.aggregateSize with
      | zero =>
          rw [hsize] at hlength
          obtain rfl : nds = [] := List.length_eq_zero_iff.mp (by simpa using hlength)
          rw [count_eq_next hinner hsize]
          rfl
      | succ c =>
          rw [hsize, List.length_cons] at hlength
          rw [count_eq_pred hinner hsize, calls_countdown hrest (Nat.succ.inj hlength)]
          rfl

/-- All later calls are for the same element, or for later ones. -/
theorem le_of_mem_calls :
  ∀ {nds : List Node} {s : TupleState elements} {c : ℕ × Node}, c ∈ s.calls nds → s.i ≤ c.1
  | [], _, _, h => by
      cases h
  | nd :: nds, s, c, h => by
      rw [calls] at h
      split at h
      · apply le_of_mem_calls h
      · rcases List.mem_cons.mp h with rfl | h
        · rfl
        · exact le_i_count.trans (le_of_mem_calls h)

/-- An element is passed its first node, and as many as its header declares. -/
theorem calls_nodes {v : Value} (hzero : s.aggregateSize = 0) (hwf : v.wellFormed = true)
    (hlength : v.encode.length < 2 ^ 64) :
  s.calls (v.nodes 1 ++ rest)
    = ((v.nodes 1).take v.quota).map (s.i, ·) ++ s.next.calls ((v.nodes 1).drop v.quota ++ rest)
  := by
  -- Only an aggregate sets the counter; all other values are counted as one node.
  have hone : ∀ {nd nds}, (nd.depth = 1 && isAggregate nd.dataType) = false → nd.depth ≠ 0 →
      s.calls (nd :: nds ++ rest) = [(s.i, nd)] ++ s.next.calls (nds ++ rest) := by
    intro nd nds hinner hdepth
    rw [List.cons_append, calls_cons hdepth, count_eq_next hinner hzero]
    rfl
  cases v with
  | simple t content =>
      rw [Value.wellFormed] at hwf
      apply hone _ one_ne_zero
      rw [isAggregate_of_simpleContent hwf, Bool.and_false]
  | bulk t blob =>
      rw [Value.wellFormed] at hwf
      apply hone _ one_ne_zero
      rw [isAggregate_of_isBulk hwf, Bool.and_false]
  | streamed parts =>
      apply hone rfl two_ne_zero
  | aggregate t size elements =>
      simp only [Value.wellFormed, Bool.and_eq_true, decide_eq_true_eq] at hwf
      obtain ⟨⟨ht, hsize⟩, _⟩ := hwf
      have hcount : elementMultiplicity t * size % 2 ^ 64 = elements.length := by
        rw [Value.encode, List.length_append] at hlength
        have := length_le_encodeAll elements
        rw [Nat.mul_comm, ← hsize]
        apply Nat.mod_eq_of_lt
        omega
      rw [Value.nodes, Value.quota, List.take_succ_cons, List.drop_succ_cons, List.cons_append,
        calls_cons one_ne_zero, count_header ht hcount, List.map_cons, List.cons_append]
      congr 1
      split
      · rename_i hnone
        rw [hnone]
        rfl
      · rename_i hsome
        conv_lhs => rw [← List.take_append_drop elements.length (Value.nodesAll 2 elements),
          List.append_assoc]
        apply calls_countdown
        · intro nd hnd
          apply Value.le_depth_of_mem_nodesAll (List.mem_of_mem_take hnd)
        · rw [List.length_take, min_eq_left (Value.length_le_nodesAll 2 elements)]
          apply (Nat.succ_pred hsome).symm

/-- The same state, with other adapters. -/
def withAdapters (s : TupleState elements) (adapters : ∀ k, (elements k).State) :
    TupleState elements :=
  { s with adapters := adapters }

/-- The adapters of the elements do not matter to the counter. -/
theorem count_withAdapters (adapters : ∀ k, (elements k).State) :
  (s.withAdapters adapters).count nd = (s.count nd).withAdapters adapters
  := by
  simp only [count, withAdapters]
  split_ifs <;> rfl

/-- The adapters of the elements do not matter to the calls. -/
theorem calls_withAdapters (adapters : ∀ k, (elements k).State) :
  ∀ {nds : List Node} {s : TupleState elements},
    (s.withAdapters adapters).calls nds = s.calls nds
  | [], _ => rfl
  | nd :: nds, s => by
      rw [calls, calls, count_withAdapters, calls_withAdapters, calls_withAdapters]
      rfl

/-! ### Routing -/

/-- The nodes that an element is passed. -/
def passed (calls : List (ℕ × Node)) (k : ℕ) : List Node := (calls.filter (·.1 = k)).map Prod.snd

theorem passed_append (cs cs' : List (ℕ × Node)) (k : ℕ) :
  passed (cs ++ cs') k = passed cs k ++ passed cs' k
  := by
  rw [passed, List.filter_append, List.map_append]
  rfl

theorem passed_map_self (i : ℕ) (nds : List Node) :
  passed (nds.map (i, ·)) i = nds
  := by
  simp [passed, List.filter_map, Function.comp_def]

theorem passed_map_ne {i k : ℕ} (h : i ≠ k) (nds : List Node) :
  passed (nds.map (i, ·)) k = []
  := by
  simp [passed, List.filter_map, Function.comp_def, h]

/-- Elements before the present one are passed nothing any more. -/
theorem passed_calls_of_lt {k : ℕ} (h : k < s.i) (nds : List Node) :
  passed (s.calls nds) k = []
  := by
  rw [passed, List.map_eq_nil_iff, List.filter_eq_nil_iff]
  intro c hc
  have := le_of_mem_calls hc
  rw [decide_eq_true_eq]
  omega

/-- Whether each element, from the present one on, is passed the nodes of its subtree, and no
others are. -/
def Routes (s : TupleState elements) (vs : List Value) : Prop :=
  (∀ j v, vs[j]? = some v → passed (s.calls (Value.nodesAll 1 vs)) (s.i + j) = v.nodes 1)
    ∧ ∀ c ∈ s.calls (Value.nodesAll 1 vs), c.1 < s.i + vs.length

/-- If the first element is passed its subtree, it remains to route the others. -/
theorem routes_cons_iff {v : Value} {vs : List Value}
    (hcalls : s.calls (Value.nodesAll 1 (v :: vs))
      = (v.nodes 1).map (s.i, ·) ++ s.next.calls (Value.nodesAll 1 vs)) :
  s.Routes (v :: vs) ↔ s.next.Routes vs
  := by
  have hlength : s.i + (v :: vs).length = s.next.i + vs.length := by
    simp only [next, List.length_cons]
    omega
  have hsucc : ∀ j, passed (s.calls (Value.nodesAll 1 (v :: vs))) (s.i + (j + 1))
      = passed (s.next.calls (Value.nodesAll 1 vs)) (s.next.i + j) := by
    intro j
    have hindex : s.i + (j + 1) = s.next.i + j := by
      simp only [next]
      omega
    rw [hcalls, passed_append, passed_map_ne (by omega), List.nil_append, hindex]
  rw [Routes, Routes, hlength]
  constructor
  · rintro ⟨hpassed, hlt⟩
    constructor
    · intro j v' hv'
      rw [← hsucc]
      apply hpassed (j + 1) v' hv'
    · intro c hc
      apply hlt
      rw [hcalls]
      apply List.mem_append_right _ hc
  · rintro ⟨hpassed, hlt⟩
    constructor
    · rintro (_ | j) v' hv'
      · obtain rfl : v = v' := Option.some.inj hv'
        rw [hcalls, passed_append, Nat.add_zero, passed_map_self,
          passed_calls_of_lt (Nat.lt_succ_self s.i), List.append_nil]
      · rw [hsucc]
        apply hpassed j v' hv'
    · intro c hc
      rw [hcalls] at hc
      rcases List.mem_append.mp hc with hc | hc
      · obtain ⟨nd, _, rfl⟩ := List.mem_map.mp hc
        simp only [next]
        omega
      · apply hlt c hc

/-- The subtrees of values are routed exactly if all values are flat. -/
theorem routes_iff :
  ∀ {vs : List Value} {s : TupleState elements}, s.aggregateSize = 0 →
    Value.wellFormedAll vs = true → (Value.encodeAll vs).length < 2 ^ 64 →
    (s.Routes vs ↔ vs.all Value.isFlat = true)
  | [], s, _, _, _ => by
      simp [Routes, Value.nodesAll, calls]
  | v :: vs, s, hzero, hwf, hlength => by
      rw [Value.wellFormedAll, Bool.and_eq_true] at hwf
      rw [Value.encodeAll, List.length_append] at hlength
      have hcalls : s.calls (Value.nodesAll 1 (v :: vs)) = ((v.nodes 1).take v.quota).map (s.i, ·)
          ++ s.next.calls ((v.nodes 1).drop v.quota ++ Value.nodesAll 1 vs) :=
        calls_nodes hzero hwf.1 (by omega)
      have ih := routes_iff (s := s.next) rfl hwf.2 (by omega)
      rw [List.all_cons, Bool.and_eq_true, ← ih, ← Value.length_nodes_eq_quota_iff 1]
      have hflat : (v.nodes 1).length = v.quota → (s.Routes (v :: vs) ↔ s.next.Routes vs) := by
        intro hquota
        apply routes_cons_iff
        rw [hcalls, ← hquota, List.take_length, List.drop_length, List.nil_append]
      constructor
      · intro hroutes
        -- The first element is passed the nodes that are counted for it, and no more.
        have hfirst := hroutes.1 0 v rfl
        rw [hcalls, Nat.add_zero, passed_append, passed_map_self,
          passed_calls_of_lt (Nat.lt_succ_self s.i), List.append_nil, List.take_eq_self_iff] at hfirst
        have hquota := hfirst.antisymm (v.quota_le 1)
        exact ⟨hquota, (hflat hquota).mp hroutes⟩
      · rintro ⟨hquota, hroutes⟩
        apply (hflat hquota).mpr hroutes

end TupleState

/-! ### The adapter -/

/-- What `static_aggregate_adapter` does with a node. -/
def feedTuple (nd : Node) (s : TupleState elements) : Fed (TupleState elements) :=
  (staticAggregateAdapter elements).feed nd s

/-- A node is given to the element with some index, which is not checked. -/
def callElement (elements : Fin n → ResultAdapter) (c : ℕ × Node) (s : ∀ k, (elements k).State) :
    Fed (∀ k, (elements k).State) :=
  if h : c.1 < n then visit elements ⟨c.1, h⟩ c.2 s else .error .badIndex

/-- The adapters of the elements, and the error that is set. -/
def tupleOutcome (r : Fed (TupleState elements)) : Fed (∀ k, (elements k).State) :=
  mapState TupleState.adapters r

/-- The nodes of an aggregate with as many elements as the tuple are given to the elements, as the
calls tell. -/
theorem feedTuple_eq_calls :
  ∀ {nds : List Node} {s : TupleState elements},
    (∀ nd ∈ nds, nd.depth = 0 → nd.aggregateSize * elementMultiplicity nd.dataType % 2 ^ 64 = n) →
    tupleOutcome (feedUntil feedTuple nds s)
      = feedUntil (callElement elements) (s.calls nds) s.adapters
  | [], _, _ => rfl
  | nd :: nds, s, h => by
      obtain ⟨hnd, hrest⟩ := List.forall_mem_cons.mp h
      rw [feedUntil_cons, TupleState.calls]
      by_cases hdepth : nd.depth = 0
      · have hfeed : feedTuple nd s = .ok (s, none) := by
          simp only [feedTuple, staticAggregateAdapter, hdepth, hnd hdepth, ↓reduceIte, ne_eq,
            not_true_eq_false]
        rw [hfeed, if_pos hdepth]
        apply feedTuple_eq_calls hrest
      · rw [if_neg hdepth, feedUntil_cons]
        by_cases hi : s.i < n
        · have hcall : callElement elements (s.i, nd) s.adapters
              = visit elements ⟨s.i, hi⟩ nd s.adapters := dif_pos hi
          have hfeed : feedTuple nd s = (visit elements ⟨s.i, hi⟩ nd s.adapters).map fun p =>
              ((s.count nd).withAdapters p.1, p.2) := by
            simp only [← TupleState.count_withAdapters]
            simp only [feedTuple, staticAggregateAdapter, hdepth, hi, ↓reduceIte, ↓reduceDIte]
            rfl
          rw [hcall, hfeed]
          rcases visit elements ⟨s.i, hi⟩ nd s.adapters with t | ⟨adapters, _ | ec⟩
          · rfl
          · apply (feedTuple_eq_calls hrest).trans
            rw [TupleState.calls_withAdapters]
            rfl
          · rfl
        · have hcall : callElement elements (s.i, nd) s.adapters = .error .badIndex := dif_neg hi
          have hfeed : feedTuple nd s = .error .badIndex := by
            simp only [feedTuple, staticAggregateAdapter, hdepth, hi, ↓reduceIte, ↓reduceDIte]
          rw [hcall, hfeed]
          rfl

/-- The adapter of a tuple passes the nodes of an aggregate with as many elements to the adapters
of the elements, as `calls` tells.  Each of these is passed the nodes of its subtree, and no index
is used that is not one of an element, exactly if the elements of the aggregate are flat. -/
theorem tuple_routing_iff (elements : Fin n → ResultAdapter) (adapters : ∀ k, (elements k).State)
    (m : Message) {t : DataType} {size : ℕ} {vs : List Value}
    (hm : m.value = .aggregate t size vs) (hn : size * elementMultiplicity t = n) :
  let s : TupleState elements := { adapters := adapters }
  let calls := s.calls m.nodes
  tupleOutcome (feedUntil feedTuple m.nodes s) = feedUntil (callElement elements) calls adapters
    ∧ ((∀ k v, vs[k]? = some v → TupleState.passed calls k = v.nodes 1) ∧ (∀ c ∈ calls, c.1 < n)
      ↔ vs.all Value.isFlat = true)
  := by
  intro s calls
  have hwf := m.wellFormed
  have hlength := m.length_lt
  rw [hm, Value.wellFormed, Bool.and_eq_true, Bool.and_eq_true, decide_eq_true_eq] at hwf
  rw [hm, Value.encode, List.length_append] at hlength
  obtain ⟨⟨_, hsize⟩, hwf⟩ := hwf
  rw [hn] at hsize
  have hnodes : m.nodes = ⟨t, size, 0, []⟩ :: Value.nodesAll 1 vs := by
    rw [Message.nodes, hm, Value.nodes]
  have hcalls : calls = s.calls (Value.nodesAll 1 vs) := by
    simp only [calls, hnodes, TupleState.calls, ↓reduceIte]
  constructor
  · apply feedTuple_eq_calls
    rw [hnodes, List.forall_mem_cons]
    constructor
    · intro _
      have := length_le_encodeAll vs
      rw [hn]
      apply Nat.mod_eq_of_lt
      omega
    · intro nd hnd hdepth
      have := Value.le_depth_of_mem_nodesAll hnd
      omega
  · have hroutes := TupleState.routes_iff (s := s) rfl hwf (by omega)
    rw [← hroutes, TupleState.Routes, hcalls, hsize]
    simp [s]

end Calls

/-- A string, and a map with one entry. -/
def pairMessage : Message where
  value := .aggregate .array 2 [.simple .simpleString (ascii "OK"),
    .aggregate .map 1 [.simple .number (ascii "1"), .simple .number (ascii "2")]]
  wellFormed := by decide
  height_le := by decide
  length_lt := by decide

theorem tuple_routing_pair :
  let s : TupleState fun _ : Fin 2 => generalAggregate := { adapters := fun _ => Except.ok [] }
  ∀ c ∈ s.calls pairMessage.nodes, c.1 < 2
  := by
  intro s
  exact ((tuple_routing_iff (fun _ : Fin 2 => generalAggregate) s.adapters pairMessage rfl
    rfl).2.mpr rfl).2

/-- An aggregate in an element of a tuple with one element. -/
def nestedMessage : Message where
  value := .aggregate .array 1
    [.aggregate .array 1 [.aggregate .array 1 [.simple .number (ascii "1")]]]
  wellFormed := by decide
  height_le := by decide
  length_lt := by decide

/-- The last node is passed to a second element, which there is not. -/
theorem tuple_routing_nested :
  let s : TupleState fun _ : Fin 1 => generalAggregate := { adapters := fun _ => Except.ok [] }
  (s.calls nestedMessage.nodes).map Prod.fst = [0, 0, 1]
    ∧ feedUntil feedTuple nestedMessage.nodes s = .error .badIndex
  := by
  exact ⟨rfl, rfl⟩

end Redis
