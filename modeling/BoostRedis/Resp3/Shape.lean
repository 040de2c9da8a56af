import BoostRedis.General.Preorder
import BoostRedis.Resp3.Nesting

/-!
# The shape of accepted messages

The nodes of a message that is accepted should be the pre-order of a tree in which every
aggregate has the number of children its header declares.  A streamed string is a vertex
without a node of its own: its start, its parts and its end are one level deeper than the
string, and are its children.

Two slips of the parser break the shape.  The number of elements of a map or an attribute is a
product that wraps around, and the end of a streamed string closes whatever is open, also an
aggregate that misses further elements.  The shape holds exactly if the headers of the message
avoid both, where the levels that are open are counted in natural numbers.
-/

namespace Resp3

open Preorder (Frame complete)

/-! ### Nodes as labels -/

/-- What a node stands for in the tree. -/
def roleOf (nd : Node) : Preorder.Role :=
  if isAggregate nd.dataType then .vertex (nd.aggregateSize * elementMultiplicity nd.dataType)
  else if nd.dataType = .streamedString then .opens
  else if nd.dataType = .streamedStringPart ∧ nd.value = [] then .closes
  else .vertex 0

/-- The nodes are the pre-order of a tree in which every array, set and push has as many
children as its size says, every map and attribute twice as many, and children are one level
deeper than their parent. -/
def HasShape (nds : List Node) : Prop :=
  ∃ t, Preorder.Ranked roleOf Node.depth 0 t ∧ Preorder.preorder t = nds

/-! ### The headers of a stream -/

/-- A position in a stream, and the levels that are open there. -/
structure Place where
  pos : ℕ
  levels : List Frame

/-- The start of a stream, where one value is missing. -/
def Place.start : Place := ⟨0, [some 0]⟩

/-- The levels that are open after a header. -/
def Line.levels (l : Line) (fr : List Frame) : List Frame :=
  match l.header with
  | .malformed _ | .lengthless => fr
  | .simple | .bulk _ => complete fr
  | .aggregate n =>
      match n * elementMultiplicity l.type with
      | 0 => complete fr
      | m + 1 => some m :: fr
  | .stream => none :: fr
  | .terminator =>
      match fr with
      | none :: fr => complete fr
      | fr => complete fr

/-- One header of a stream is read, with the bulk it announces. -/
structure Reads (s : Bytes) (x : Place) (l : Line) (y : Place) : Prop where
  unfinished : x.levels ≠ []
  line : lineAt s x.pos = some l
  next : y = ⟨l.finish, l.levels x.levels⟩

/-- The header declares more elements than an `std::size_t` can count, or it ends a streamed
string while the innermost level is an aggregate that misses further elements. -/
def Line.Slips (l : Line) (fr : List Frame) : Prop :=
  (∃ n, l.header = .aggregate n ∧ 2 ^ 64 ≤ n * elementMultiplicity l.type) ∨
    (l.header = .terminator ∧ ∃ k fr', fr = some (k + 1) :: fr')

/-- No header of the value that starts at a place makes one of the two slips. -/
def SlipFree (s : Bytes) (x : Place) : Prop :=
  ∀ ls y l, Run (Reads s) x ls y → y.levels ≠ [] → lineAt s y.pos = some l → ¬ l.Slips y.levels

theorem SlipFree.head {s : Bytes} {x : Place} {l : Line} (h : SlipFree s x) (hx : x.levels ≠ [])
    (hl : lineAt s x.pos = some l) :
  ¬ l.Slips x.levels
  := h [] x l (.nil x) hx hl

theorem SlipFree.tail {s : Bytes} {x y : Place} {l : Line} (h : SlipFree s x)
    (hr : Reads s x l y) :
  SlipFree s y
  := fun ls z l' hz => h (l :: ls) z l' (.cons hr hz)

/-! ### The role of the node of a header -/

theorem header_simple_type {l : Line} (h : l.header = .simple) :
  isAggregate l.type = false ∧ l.type ≠ .streamedString ∧ l.type ≠ .streamedStringPart
  := by
  grind [Line.header, Header.ofCount, isAggregate]

theorem header_bulk_type {l : Line} {n : ℕ} (h : l.header = .bulk n) :
  isAggregate l.type = false ∧ l.type ≠ .streamedString ∧ (l.type = .streamedStringPart → n ≠ 0)
  := by
  grind [Line.header, Header.ofCount, isAggregate]

theorem header_aggregate_type {l : Line} {n : ℕ} (h : l.header = .aggregate n) :
  isAggregate l.type = true
  := by
  grind [Line.header, Header.ofCount, isAggregate]

section Role

variable {l : Line} {view : Bytes} {d : ℕ} {fr : List Frame} {st st' : List ℕ}

/-- A part that has the value of the end of a streamed string without being one: its length
wraps around, and it stands at the very end of the view. -/
def Line.Ghost (l : Line) (view : Bytes) : Prop :=
  (∃ n, l.header = .bulk n) ∧ l.type = .streamedStringPart ∧ view.length ≤ l.next

theorem roleOf_simple (view : Bytes) (d : ℕ) (h : l.header = .simple) :
  roleOf (l.node view d) = .vertex 0 ∧ (l.node view d).depth = d
  := by
  obtain ⟨hagg, hstr, hpart⟩ := header_simple_type h
  simp only [Line.node, h, roleOf, hagg, hstr, hpart, Bool.false_eq_true, false_and, ↓reduceIte]
  exact ⟨trivial, trivial⟩

theorem roleOf_bulk {n : ℕ} (view : Bytes) (d : ℕ) (h : l.header = .bulk n) :
  (roleOf (l.node view d) = .vertex 0 ∨ roleOf (l.node view d) = .closes ∧ l.Ghost view) ∧
    (l.node view d).depth = d
  := by
  obtain ⟨hagg, hstr, hpos⟩ := header_bulk_type h
  simp only [Line.node, h, roleOf, hagg, hstr, Bool.false_eq_true, ↓reduceIte, and_true]
  by_cases hpart : l.type = .streamedStringPart ∧ (view.drop l.next).take n = []
  · right
    rw [if_pos hpart]
    refine ⟨rfl, ⟨n, h⟩, hpart.1, ?_⟩
    obtain hn | hdrop := List.take_eq_nil_iff.mp hpart.2
    · exact absurd hn (hpos hpart.1)
    · apply List.drop_eq_nil_iff.mp hdrop
  · left
    rw [if_neg hpart]

theorem roleOf_terminator (view : Bytes) (d : ℕ) (h : l.header = .terminator) :
  roleOf (l.node view d) = .closes ∧ (l.node view d).depth = d
  := by
  rw [Line.node, h]
  exact ⟨rfl, rfl⟩

theorem roleOf_stream (view : Bytes) (d : ℕ) (h : l.header = .stream) :
  roleOf (l.node view d) = .opens ∧ (l.node view d).depth = d + 1
  := by
  rw [Line.node, h]
  exact ⟨rfl, rfl⟩

theorem roleOf_aggregate {n : ℕ} (view : Bytes) (d : ℕ) (h : l.header = .aggregate n) :
  roleOf (l.node view d) = .vertex (n * elementMultiplicity l.type) ∧ (l.node view d).depth = d
  := by
  have hagg := header_aggregate_type h
  simp only [Line.node, h, roleOf, hagg, ↓reduceIte]
  exact ⟨trivial, trivial⟩

/-- The node of a header does to the open levels what the header does. -/
theorem step_node (heff : l.effect st = some st') (hd : fr.length = d + 1)
    (hghost : l.Ghost view → ∀ fr', fr ≠ none :: fr') :
  Preorder.step roleOf Node.depth fr (l.node view d) = some (l.levels fr)
  := by
  have hne : fr ≠ [] := by
    rintro rfl
    cases hd
  rw [Line.effect] at heff
  cases h : l.header with
  | malformed ec =>
      rw [h] at heff
      cases heff
  | lengthless =>
      rw [h] at heff
      cases heff
  | simple =>
      obtain ⟨hr, hdepth⟩ := roleOf_simple view d h
      rw [Preorder.step_leaf hr (by omega)]
      simp only [Line.levels, h]
  | bulk n =>
      obtain ⟨hr | ⟨hr, hg⟩, hdepth⟩ := roleOf_bulk view d h
      · rw [Preorder.step_leaf hr (by omega)]
        simp only [Line.levels, h]
      · obtain _ | ⟨_ | k, fr⟩ := fr
        · exact absurd rfl hne
        · exact absurd rfl (hghost hg fr)
        · rw [List.length_cons] at hd
          rw [Preorder.step_closes_leaf hr (by omega)]
          simp only [Line.levels, h]
  | terminator =>
      obtain ⟨hr, hdepth⟩ := roleOf_terminator view d h
      obtain _ | ⟨_ | k, fr⟩ := fr
      · exact absurd rfl hne
      · rw [List.length_cons] at hd
        rw [Preorder.step_closes hr (by omega)]
        simp only [Line.levels, h]
      · rw [List.length_cons] at hd
        rw [Preorder.step_closes_leaf hr (by omega)]
        simp only [Line.levels, h]
  | stream =>
      obtain ⟨hr, hdepth⟩ := roleOf_stream view d h
      rw [Preorder.step_opens hr hne (by omega)]
      simp only [Line.levels, h]
  | aggregate n =>
      obtain ⟨hr, hdepth⟩ := roleOf_aggregate view d h
      cases hn : n * elementMultiplicity l.type with
      | zero =>
          rw [hn] at hr
          rw [Preorder.step_leaf hr (by omega)]
          simp only [Line.levels, h, hn]
      | succ m =>
          rw [hn] at hr
          rw [Preorder.step_vertex hr (by omega)]
          simp only [Line.levels, h, hn]

/-- The depth of a node is that of the parser, or one more for the start of a streamed
string. -/
theorem node_depth (heff : l.effect st = some st') :
  (l.node view d).depth = if roleOf (l.node view d) = .opens then d + 1 else d
  := by
  rw [Line.effect] at heff
  cases h : l.header with
  | malformed ec =>
      rw [h] at heff
      cases heff
  | lengthless =>
      rw [h] at heff
      cases heff
  | simple =>
      obtain ⟨hr, hdepth⟩ := roleOf_simple view d h
      rw [hr, hdepth, if_neg (by simp)]
  | bulk n =>
      obtain ⟨hr | ⟨hr, -⟩, hdepth⟩ := roleOf_bulk view d h
      · rw [hr, hdepth, if_neg (by simp)]
      · rw [hr, hdepth, if_neg (by simp)]
  | terminator =>
      obtain ⟨hr, hdepth⟩ := roleOf_terminator view d h
      rw [hr, hdepth, if_neg (by simp)]
  | stream =>
      obtain ⟨hr, hdepth⟩ := roleOf_stream view d h
      rw [hr, hdepth, if_pos rfl]
  | aggregate n =>
      obtain ⟨hr, hdepth⟩ := roleOf_aggregate view d h
      rw [hr, hdepth, if_neg (by simp)]

end Role

/-! ### The counters of the parser and the levels that are open -/

/-- The counters of the parser agree with the levels that are open: a counter is the number of
missing elements, and that of a streamed string is too large to become zero, with `r` bytes
left. -/
inductive Matches (r : ℕ) : List Frame → List ℕ → Prop where
  | root : Matches r [some 0] [2]
  | counted {k : ℕ} {fr : List Frame} {cs : List ℕ} :
      k + 1 < 2 ^ 64 → Matches r fr cs → Matches r (some k :: fr) ((k + 1) :: cs)
  | streamed {c : ℕ} {fr : List Frame} {cs : List ℕ} :
      r < c → c < 2 ^ 64 → Matches r fr cs → Matches r (none :: fr) (c :: cs)

namespace Matches

variable {r r' : ℕ} {fr : List Frame} {cs cs' : List ℕ}

theorem mono (h : Matches r fr cs) (hr : r' ≤ r) :
  Matches r' fr cs
  := by
  induction h with
  | root => apply root
  | counted hk _ ih => apply counted hk ih
  | streamed hc hc' _ ih => apply streamed (by omega) hc' ih

theorem length_eq (h : Matches r fr cs) :
  fr.length = cs.length
  := by
  induction h with
  | root => rfl
  | counted _ _ ih => rw [List.length_cons, List.length_cons, ih]
  | streamed _ _ _ ih => rw [List.length_cons, List.length_cons, ih]

theorem ne_nil (h : Matches r fr cs) :
  fr ≠ []
  := by
  cases h <;> simp

/-- The decremented sentinel agrees with no levels. -/
theorem ne_singleton (h : Matches r fr cs) :
  cs ≠ [1]
  := by
  rintro rfl
  cases h with
  | counted _ hm => cases hm
  | streamed _ _ hm => cases hm

/-- The levels and the counters after an element: either the value is complete, or they still
agree. -/
def Agree (r : ℕ) (fr : List Frame) (cs : List ℕ) : Prop :=
  fr = [] ∧ cs = [1] ∨ Matches r fr cs

/-- Counting an element keeps the agreement. -/
theorem commit (h : Matches r fr cs) (hr : r' < r) (hc : commit cs = some cs') :
  Agree r' (complete fr) cs'
  := by
  induction h with
  | root =>
      left
      rw [Resp3.commit, predSize_succ (by omega), if_neg (by omega)] at hc
      exact ⟨rfl, (Option.some.inj hc).symm⟩
  | @counted k fr cs hk hm ih =>
      rw [Resp3.commit, predSize_succ hk] at hc
      cases k with
      | zero => apply ih hc
      | succ k =>
          right
          rw [if_neg (by omega)] at hc
          obtain rfl := Option.some.inj hc
          apply counted (by omega) (hm.mono (by omega))
  | @streamed c fr cs hlt hlt' hm _ =>
      right
      obtain ⟨c, rfl⟩ : ∃ c', c = c' + 1 := ⟨c - 1, by omega⟩
      rw [Resp3.commit, predSize_succ hlt', if_neg (by omega)] at hc
      obtain rfl := Option.some.inj hc
      apply streamed (by omega) (by omega) (hm.mono (by omega))

end Matches

/-- A header that does not slip keeps the agreement. -/
theorem effect_agree {l : Line} {r r' : ℕ} {fr : List Frame} {cs cs' : List ℕ}
    (hm : Matches r fr cs) (heff : l.effect cs = some cs') (hslip : ¬ l.Slips fr) (hr : r' < r)
    (hr' : r < 2 ^ 64) :
  Matches.Agree r' (l.levels fr) cs'
  := by
  rw [Line.effect] at heff
  cases h : l.header with
  | malformed ec =>
      rw [h] at heff
      cases heff
  | lengthless =>
      rw [h] at heff
      cases heff
  | simple =>
      rw [h] at heff
      simp only [Line.levels, h]
      apply hm.commit hr heff
  | bulk n =>
      rw [h] at heff
      simp only [Line.levels, h]
      apply hm.commit hr heff
  | terminator =>
      rw [h] at heff
      cases hm with
      | root => cases heff
      | @counted k fr cs _ hm =>
          cases k with
          | zero =>
              simp only [Line.levels, h]
              apply hm.commit hr heff
          | succ k => exact absurd (.inr ⟨h, k, fr, rfl⟩) hslip
      | streamed _ _ hm =>
          simp only [Line.levels, h]
          apply hm.commit hr heff
  | stream =>
      simp only [h, Option.ite_none_right_eq_some] at heff
      obtain rfl := Option.some.inj heff.2
      simp only [Line.levels, h]
      exact .inr (.streamed (by omega) (by omega) (hm.mono (by omega)))
  | aggregate n =>
      cases n with
      | zero =>
          rw [h] at heff
          simp only [Line.levels, h, Nat.zero_mul]
          apply hm.commit hr heff
      | succ n =>
          simp only [h, Option.ite_none_right_eq_some] at heff
          obtain rfl := Option.some.inj heff.2
          have hlt : (n + 1) * elementMultiplicity l.type < 2 ^ 64 := by
            by_contra hge
            exact hslip (.inl ⟨n + 1, h, by omega⟩)
          have hpos : (n + 1) * elementMultiplicity l.type ≠ 0 := by
            have := elementMultiplicity_pos l.type
            apply Nat.mul_ne_zero <;> omega
          obtain ⟨m, hmul⟩ := Nat.exists_eq_succ_of_ne_zero hpos
          simp only [Line.levels, h, hmul]
          rw [hmul] at hlt
          rw [Nat.mod_eq_of_lt hlt]
          exact .inr (.counted hlt (hm.mono (by omega)))

/-! ### The parser and the headers side by side -/

/-- The parser stands at a place of the stream, and its counters agree with the levels that are
open there. -/
structure Follows (view : Bytes) (p : Parser) (x : Place) : Prop where
  valid : p.Valid view
  bulk : p.bulk = .invalid
  pos : p.consumed = x.pos
  agree : Matches.Agree (view.length - p.consumed) x.levels p.stack

namespace Follows

variable {view : Bytes} {p q : Parser} {x : Place} {nd : Node} {nds : List Node}

theorem fresh (view : Bytes) :
  Follows view .fresh .start
  := ⟨Parser.fresh_valid view, rfl, rfl, .inr .root⟩

theorem levels_of_done (h : Follows view p x) (hd : p.done = true) :
  x.levels = []
  := by
  have hst := h.valid.bottom hd
  obtain ⟨hx, -⟩ | hm := h.agree
  · apply hx
  · exact absurd hst hm.ne_singleton

theorem matches_of_not_done (h : Follows view p x) (hd : p.done = false) :
  Matches (view.length - p.consumed) x.levels p.stack
  := by
  obtain ⟨st, hst⟩ := h.valid.sentinel hd
  obtain ⟨-, hone⟩ | hm := h.agree
  · have := congrArg List.getLast? (hst.symm.trans hone)
    simp at this
  · apply hm

theorem length_levels (h : Follows view p x) (hd : p.done = false) :
  x.levels.length = p.depth + 1
  := by
  rw [(h.matches_of_not_done hd).length_eq, Parser.length_stack]

/-- A header that does not slip is followed. -/
theorem next {l : Line} {st : List ℕ} (h : Follows view p x) (hv : view.length < 2 ^ 64)
    (hc : p.Consumes view nd q) (hl : p.nextLine view = some l)
    (heff : l.effect p.stack = some st) (hfit : l.finish ≤ view.length) (hat : q.At st l.finish)
    (hslip : ¬ l.Slips x.levels) :
  Follows view q ⟨l.finish, l.levels x.levels⟩
  := by
  obtain ⟨hlt, hnext⟩ := Parser.nextLine_next hl
  have hfin := l.next_le_finish
  have hm := h.matches_of_not_done hc.not_done
  have hagree : Matches.Agree (view.length - q.consumed) _ _ := effect_agree hm heff hslip
    (by rw [hat.consumed]; omega) (by omega)
  rw [← hat.stack] at hagree
  exact ⟨h.valid.consume hv hc.not_done hc.consume, hat.bulk, hat.consumed, hagree⟩

/-- Inside a streamed string, no value is completed after the last byte of the view. -/
theorem not_ghost {l : Line} {r : Parser} {st : List ℕ} (h : Follows view p x)
    (hv : view.length < 2 ^ 64) (hc : p.Consumes view nd q) (hl : p.nextLine view = some l)
    (heff : l.effect p.stack = some st) (hfit : l.finish ≤ view.length) (hat : q.At st l.finish)
    (hr : Run (Parser.Consumes view) q nds r) (hdone : r.done = true) (hg : l.Ghost view)
    (fr : List Frame) :
  x.levels ≠ none :: fr
  := by
  intro hx
  obtain ⟨⟨n, hn⟩, -, hend⟩ := hg
  obtain ⟨hlt, -⟩ := Parser.nextLine_next hl
  have hfin := l.next_le_finish
  have hslip : ¬ l.Slips x.levels := by
    rintro (⟨m, hm, -⟩ | ⟨hm, -⟩) <;> rw [hn] at hm <;> cases hm
  have hq := h.next hv hc hl heff hfit hat hslip
  have hlevels : l.levels x.levels = none :: fr := by
    simp only [Line.levels, hn, hx, complete]
  cases hr with
  | nil =>
      have := hq.levels_of_done hdone
      rw [hlevels] at this
      cases this
  | cons hc' _ =>
      obtain ⟨l', -, hl', -⟩ := hq.valid.line_of_consumes hv hq.bulk hc'
      have hnext := Parser.nextLine_next hl'
      rw [hat.consumed] at hnext
      omega

/-- If no header slips, reading the nodes completes the tree. -/
theorem run_of_slipFree {r : Parser} (hr : Run (Parser.Consumes view) p nds r)
    (hv : view.length < 2 ^ 64) (hdone : r.done = true) (h : Follows view p x)
    (hfree : SlipFree view x) :
  Preorder.run roleOf Node.depth x.levels nds = some []
  := by
  induction hr generalizing x with
  | nil =>
      rw [h.levels_of_done hdone]
      rfl
  | cons hc hr ih =>
      obtain ⟨l, st, hl, rfl, heff, hfit, hat⟩ := h.valid.line_of_consumes hv h.bulk hc
      have hm := h.matches_of_not_done hc.not_done
      have hline := hl
      rw [Parser.nextLine, h.pos] at hline
      have hslip := hfree.head hm.ne_nil hline
      have hghost := h.not_ghost hv hc hl heff hfit hat hr hdone
      rw [Preorder.run_cons (step_node heff (h.length_levels hc.not_done) hghost)]
      apply ih hdone (h.next hv hc hl heff hfit hat hslip)
        (hfree.tail ⟨hm.ne_nil, hline, rfl⟩)

/-- A node read after the end of a streamed string has closed an aggregate stands too high for
the elements that the aggregate misses. -/
theorem not_early_end {l : Line} {r : Parser} {st : List ℕ} {k : ℕ} {fr : List Frame}
    (h : Follows view p x) (hv : view.length < 2 ^ 64) (hc : p.Consumes view nd q)
    (heff : l.effect p.stack = some st) (hat : q.At st l.finish)
    (hr : Run (Parser.Consumes view) q nds r) (hn : l.header = .terminator)
    (hx : x.levels = some (k + 1) :: fr) :
  Preorder.run roleOf Node.depth (some k :: fr) nds ≠ some []
  := by
  intro hrun
  have hlevels := h.length_levels hc.not_done
  rw [hx, List.length_cons] at hlevels
  have hdepth : q.depth < p.depth := by
    rw [Line.effect, hn] at heff
    have hle := commit_length_le heff
    have hq := q.length_stack
    rw [hat.stack] at hq
    rw [List.length_tail, Parser.length_stack] at hle
    omega
  cases hr with
  | nil => cases hrun
  | cons hc' _ =>
      have hvalid := h.valid.consume hv hc.not_done hc.consume
      obtain ⟨l', st', -, rfl, heff', -⟩ := hvalid.line_of_consumes hv hat.bulk hc'
      obtain ⟨fr', hstep, -⟩ := Option.bind_eq_some_iff.mp hrun
      obtain ⟨-, hplaced⟩ := Preorder.step_depth hstep
      rw [node_depth heff', List.length_cons] at hplaced
      split at hplaced <;> omega

/-- If reading the nodes completes the tree, no header slips. -/
theorem slipFree_of_run {r : Parser} (hr : Run (Parser.Consumes view) p nds r)
    (hv : view.length < 2 ^ 64) (hdone : r.done = true) (h : Follows view p x)
    (hlen : nds.length < 2 ^ 64) (hrun : Preorder.run roleOf Node.depth x.levels nds = some []) :
  SlipFree view x
  := by
  induction hr generalizing x with
  | nil =>
      have hx := h.levels_of_done hdone
      intro ls y l hls hy
      cases hls with
      | nil => exact absurd hx hy
      | cons hl _ => exact absurd hx hl.unfinished
  | cons hc hr ih =>
      obtain ⟨l, st, hl, rfl, heff, hfit, hat⟩ := h.valid.line_of_consumes hv h.bulk hc
      have hline := hl
      rw [Parser.nextLine, h.pos] at hline
      have hghost := h.not_ghost hv hc hl heff hfit hat hr hdone
      rw [Preorder.run_cons (step_node heff (h.length_levels hc.not_done) hghost)] at hrun
      rw [List.length_cons] at hlen
      have hslip : ¬ l.Slips x.levels := by
        rintro (⟨n, hn, hbig⟩ | ⟨hn, k, fr, hx⟩)
        · obtain ⟨m, hm⟩ := Nat.exists_eq_succ_of_ne_zero
            (show n * elementMultiplicity l.type ≠ 0 by omega)
          simp only [Line.levels, hn, hm] at hrun
          have := Preorder.lt_length_of_run hrun
          omega
        · apply h.not_early_end hv hc heff hat hr hn hx
          rw [hx] at hrun
          simpa only [Line.levels, hn, complete] using hrun
      have hfree := ih hdone (h.next hv hc hl heff hfit hat hslip) (by omega) hrun
      intro ls y l' hls hy hl'
      cases hls with
      | nil =>
          rw [hline] at hl'
          obtain rfl := Option.some.inj hl'
          apply hslip
      | cons hread hrest =>
          have hsame := hread.line
          rw [hline] at hsame
          obtain rfl := Option.some.inj hsame
          rw [hread.next] at hrest
          apply hfree _ y l' hrest hy hl'

end Follows

/-- Every iteration of the loop uses up budget. -/
theorem length_le_budget {view : Bytes} {p q : Parser} {nds : List Node}
    (hr : Run (Parser.Consumes view) p nds q) :
  nds.length ≤ p.budget view
  := by
  induction hr with
  | nil => apply Nat.zero_le
  | cons hc _ ih =>
      have := (Parser.consume_budget hc.consume).2
      rw [List.length_cons]
      omega

/-- The nodes of a message that is accepted are the pre-order of a tree with the sizes its
headers declare exactly when no header of the message slips. -/
theorem hasShape_iff {σ : Type} (s : Bytes) (hs : s.length < 2 ^ 64) (adapter : Adapter σ) (t : σ)
    (hdone : (parse .fresh s adapter t).status = .done) :
  HasShape (parse .fresh s adapter t).nodes ↔ SlipFree s .start
  := by
  obtain ⟨hr, hq⟩ := parse_run_of_done hdone
  have hlen := length_le_budget hr
  rw [Parser.budget_of_invalid rfl] at hlen
  rw [HasShape, Preorder.exists_tree_iff]
  constructor
  · intro h
    apply (Follows.fresh s).slipFree_of_run hr hs hq (by omega) h
  · intro h
    apply (Follows.fresh s).run_of_slipFree hr hs hq h

theorem hasShape_iff_map :
  HasShape (parse .fresh (ascii "%1\r\n+a\r\n$?\r\n;0\r\n") accepting ()).nodes ↔
    SlipFree (ascii "%1\r\n+a\r\n$?\r\n;0\r\n") .start
  := hasShape_iff _ (by decide) accepting () (by decide)

/-- A map whose number of elements wraps around is accepted with two elements, and an array of
two is accepted with the end of a streamed string as its only element. -/
theorem hasShape_fails :
  ((parse .fresh (ascii "%9223372036854775809\r\n+a\r\n+b\r\n") accepting ()).status = .done ∧
    ¬ HasShape (parse .fresh (ascii "%9223372036854775809\r\n+a\r\n+b\r\n") accepting ()).nodes) ∧
  ((parse .fresh (ascii "*2\r\n;0\r\n") accepting ()).status = .done ∧
    ¬ HasShape (parse .fresh (ascii "*2\r\n;0\r\n") accepting ()).nodes)
  := by
  refine ⟨⟨by decide, ?_⟩, by decide, ?_⟩
  · rw [HasShape, Preorder.exists_tree_iff]
    decide
  · rw [HasShape, Preorder.exists_tree_iff]
    decide

end Resp3
