import BoostRedis.Resp3.Canonical

/-!
# Streamed strings

A streamed string should be reported as its start, its parts, none of them empty, and an empty
part that ends it, all at the same depth and with nothing in between.

The parser reads a streamed string as an aggregate of the largest size there is.  It does not
check that the elements of this aggregate are parts, nor that parts are elements of such an
aggregate.  The nodes are well bracketed exactly if the header lines of the message are: the
headers of parts are those read after the start of a streamed string and up to its end.
-/

namespace Resp3

/-! ### Bracketed lists of nodes -/

/-- Every start of a streamed string is followed by parts of the same depth that are not empty
and by an empty part that ends it, and parts occur nowhere else. -/
inductive Bracketed : List Node → Prop where
  | nil : Bracketed []
  | plain {nd : Node} {nds : List Node} :
      nd.dataType ≠ .streamedString → nd.dataType ≠ .streamedStringPart → Bracketed nds →
      Bracketed (nd :: nds)
  | streamed {start last : Node} {parts nds : List Node} :
      start.dataType = .streamedString →
      (∀ part ∈ parts, part.dataType = .streamedStringPart ∧ part.depth = start.depth ∧
        part.value ≠ []) →
      last.dataType = .streamedStringPart → last.depth = start.depth → last.value = [] →
      Bracketed nds → Bracketed (start :: (parts ++ last :: nds))

/-- Reads a list of nodes with at most one streamed string open, at a given depth. -/
def scan : Option ℕ → List Node → Bool
  | none, [] => true
  | some _, [] => false
  | none, nd :: nds =>
      if nd.dataType = .streamedStringPart then false
      else if nd.dataType = .streamedString then scan (some nd.depth) nds
      else scan none nds
  | some d, nd :: nds =>
      if nd.dataType = .streamedStringPart ∧ nd.depth = d then
        if nd.value = [] then scan none nds else scan (some d) nds
      else false

/-- The scan passes the parts of a streamed string and its end. -/
theorem scan_parts {d : ℕ} {last : Node} {nds : List Node}
    (hlast : last.dataType = .streamedStringPart ∧ last.depth = d) (hnil : last.value = []) :
  ∀ {parts : List Node}, (∀ part ∈ parts, part.dataType = .streamedStringPart ∧ part.depth = d ∧
      part.value ≠ []) →
    scan (some d) (parts ++ last :: nds) = scan none nds
  | [], _ => by rw [List.nil_append, scan, if_pos hlast, if_pos hnil]
  | part :: parts, h => by
      obtain ⟨ht, hd, hv⟩ := h part (by simp)
      rw [List.cons_append, scan, if_pos ⟨ht, hd⟩, if_neg hv]
      apply scan_parts hlast hnil
      intro part' hpart'
      apply h part' (by simp [hpart'])

/-- A bracketed list is accepted by the scan. -/
theorem Bracketed.scan_eq {nds : List Node} (h : Bracketed nds) :
  scan none nds = true
  := by
  induction h with
  | nil => rfl
  | plain hs hp _ ih => rw [scan, if_neg hp, if_neg hs, ih]
  | streamed hs hparts ht hd hv _ ih =>
      rw [scan, if_neg (by simp [hs]), if_pos hs, scan_parts ⟨ht, hd⟩ hv hparts, ih]

/-- What the scan accepts is bracketed, after the rest of a streamed string that is open. -/
theorem bracketed_of_scan :
  ∀ (nds : List Node),
    (scan none nds = true → Bracketed nds) ∧
    (∀ d, scan (some d) nds = true → ∃ parts last rest, nds = parts ++ last :: rest ∧
      (∀ part ∈ parts, part.dataType = .streamedStringPart ∧ part.depth = d ∧ part.value ≠ []) ∧
      last.dataType = .streamedStringPart ∧ last.depth = d ∧ last.value = [] ∧ Bracketed rest)
  | [] => ⟨fun _ => .nil, fun _ h => by cases h⟩
  | nd :: nds => by
      obtain ⟨ihn, ihs⟩ := bracketed_of_scan nds
      constructor
      · intro h
        rw [scan] at h
        split at h
        · cases h
        · rename_i hp
          split at h
          · rename_i hs
            obtain ⟨parts, last, rest, rfl, hparts, ht, hd, hv, hrest⟩ := ihs _ h
            apply Bracketed.streamed hs hparts ht hd hv hrest
          · rename_i hs
            apply Bracketed.plain hs hp (ihn h)
      · intro d h
        rw [scan] at h
        split at h
        · rename_i hpart
          split at h
          · rename_i hv
            exact ⟨[], nd, nds, rfl, by simp, hpart.1, hpart.2, hv, ihn h⟩
          · rename_i hv
            obtain ⟨parts, last, rest, rfl, hparts, hlast⟩ := ihs d h
            refine ⟨nd :: parts, last, rest, rfl, ?_, hlast⟩
            intro part hmem
            obtain rfl | hmem := List.mem_cons.mp hmem
            · exact ⟨hpart.1, hpart.2, hv⟩
            · apply hparts part hmem
        · cases h

theorem bracketed_iff (nds : List Node) :
  Bracketed nds ↔ scan none nds = true
  := ⟨Bracketed.scan_eq, (bracketed_of_scan _).1⟩

/-! ### Header lines inside and outside a streamed string -/

/-- Whether a streamed string is open after a line, given whether one is open before it. -/
def Line.streaming (isOpen : Bool) (l : Line) : Bool :=
  match l.header with
  | .stream => true
  | .terminator => false
  | _ => isOpen

/-- From the parser on, the headers of parts are those that are read while a streamed string is
open. -/
def Streams (view : Bytes) (isOpen : Bool) (p : Parser) : Prop :=
  Headers view p fun ls l =>
    (l.type = .streamedStringPart ↔ ls.foldl Line.streaming isOpen = true)

/-- Where the scan stands when the parser is at a given depth. -/
def scanState (isOpen : Bool) (depth : ℕ) : Option ℕ :=
  if isOpen then some depth else none

/-- While a streamed string is open, the counter on top of the stack is too large to become
zero. -/
def OpenStream (view : Bytes) (isOpen : Bool) (p : Parser) : Prop :=
  isOpen = true → ∃ c st, p.stack = c :: st ∧ st ≠ [] ∧ view.length - p.consumed < c ∧ c < 2 ^ 64

section Step

variable {view : Bytes} {p q : Parser} {l : Line} {st : List ℕ} {isOpen : Bool} {nds : List Node}

/-- A line that is out of place is rejected by the scan. -/
theorem scan_of_misplaced (heff : l.effect p.stack = some st)
    (h : ¬ (l.type = .streamedStringPart ↔ isOpen = true)) :
  scan (scanState isOpen p.depth) (l.node view p.depth :: nds) = false
  := by
  have htype : (l.node view p.depth).dataType = .streamedStringPart ↔
      l.type = .streamedStringPart := by
    rw [Line.effect] at heff
    cases hh : l.header with
    | malformed ec =>
        rw [hh] at heff
        cases heff
    | lengthless =>
        rw [hh] at heff
        cases heff
    | simple => simp only [Line.node, hh]
    | bulk n => simp only [Line.node, hh]
    | aggregate n => simp only [Line.node, hh]
    | terminator => simp only [Line.node, hh, (header_terminator_toInt hh).1]
    | stream => grind [Line.node, Line.header, Header.ofCount]
  cases isOpen with
  | true =>
      have hne : ¬ (l.node view p.depth).dataType = .streamedStringPart := by
        rw [htype]
        simpa using h
      simp only [scanState, scan, hne, false_and, ↓reduceIte]
  | false =>
      have heq : (l.node view p.depth).dataType = .streamedStringPart := by
        rw [htype]
        simpa using h
      simp only [scanState, scan, heq, Bool.false_eq_true, ↓reduceIte]

theorem header_part {l : Line} (heff : l.effect p.stack = some st)
    (ht : l.type = .streamedStringPart) :
  l.header = .terminator ∨ ∃ n, l.header = .bulk n
  := by
  rw [Line.effect] at heff
  grind [Line.header, Header.ofCount]

/-- A part read inside a streamed string. -/
theorem step_part (hopen : OpenStream view true p) (ht : l.type = .streamedStringPart)
    (heff : l.effect p.stack = some st) (hat : q.At st l.finish)
    (hlt : p.consumed < l.finish) (hfit : l.finish ≤ view.length) (hghost : ¬ l.Ghost view) :
  scan (scanState true p.depth) (l.node view p.depth :: nds)
      = scan (scanState (l.streaming true) q.depth) nds ∧
    OpenStream view (l.streaming true) q
  := by
  obtain hh | ⟨n, hh⟩ := header_part heff ht
  · simp only [Line.streaming, hh, Line.node, scanState, scan, ↓reduceIte, and_self,
      Bool.false_eq_true, OpenStream, false_implies]
  · obtain ⟨c, st', hstack, hne, hc, hc'⟩ := hopen rfl
    obtain ⟨c, rfl⟩ : ∃ c', c = c' + 1 := ⟨c - 1, by omega⟩
    simp only [Line.effect, hh, hstack, commit, predSize_succ hc'] at heff
    rw [if_neg (by omega)] at heff
    obtain rfl := Option.some.inj heff
    have hdepth : q.depth = p.depth := by
      have hp := p.length_stack
      have hq := q.length_stack
      rw [hstack, List.length_cons] at hp
      rw [hat.stack, List.length_cons] at hq
      omega
    have hvalue : (view.drop l.next).take n ≠ [] := by
      intro hnil
      obtain hn | hdrop := List.take_eq_nil_iff.mp hnil
      · apply (header_bulk_type hh).2.2 ht hn
      · apply hghost ⟨⟨n, hh⟩, ht, List.drop_eq_nil_iff.mp hdrop⟩
    constructor
    · simp only [Line.streaming, hh, Line.node, scanState, scan, ht, hvalue, hdepth, ↓reduceIte,
        and_self]
    · intro _
      refine ⟨c, st', hat.stack, hne, ?_, by omega⟩
      rw [hat.consumed]
      omega

/-- A line read outside of streamed strings. -/
theorem step_plain (ht : l.type ≠ .streamedStringPart) (hv : view.length < 2 ^ 64)
    (heff : l.effect p.stack = some st) (hat : q.At st l.finish) (hlt : p.consumed < l.finish) :
  scan (scanState false p.depth) (l.node view p.depth :: nds)
      = scan (scanState (l.streaming false) q.depth) nds ∧
    OpenStream view (l.streaming false) q
  := by
  have hclosed : OpenStream view false q := by
    intro h
    cases h
  rw [Line.effect] at heff
  cases hh : l.header with
  | malformed ec =>
      rw [hh] at heff
      cases heff
  | lengthless =>
      rw [hh] at heff
      cases heff
  | simple =>
      have hstr := (header_simple_type hh).2.1
      simp only [Line.streaming, hh, Line.node, scanState, scan, ht, hstr, ↓reduceIte,
        Bool.false_eq_true]
      exact ⟨trivial, hclosed⟩
  | bulk n =>
      have hstr := (header_bulk_type hh).2.1
      simp only [Line.streaming, hh, Line.node, scanState, scan, ht, hstr, ↓reduceIte,
        Bool.false_eq_true]
      exact ⟨trivial, hclosed⟩
  | terminator => exact absurd (header_terminator_toInt hh).1 ht
  | aggregate n =>
      have hstr : l.type ≠ .streamedString := by
        intro hs
        have := header_aggregate_type hh
        rw [hs] at this
        cases this
      simp only [Line.streaming, hh, Line.node, scanState, scan, ht, hstr, ↓reduceIte,
        Bool.false_eq_true]
      exact ⟨trivial, hclosed⟩
  | stream =>
      simp only [hh, Option.ite_none_right_eq_some] at heff
      obtain rfl := Option.some.inj heff.2
      have hdepth : q.depth = p.depth + 1 := by
        have hp := p.length_stack
        have hq := q.length_stack
        rw [hat.stack, List.length_cons] at hq
        omega
      constructor
      · simp only [Line.streaming, hh, Line.node, scanState, scan, hdepth, ↓reduceIte,
          Bool.false_eq_true, reduceCtorEq]
      · intro _
        refine ⟨2 ^ 64 - 1, p.stack, hat.stack, ?_, ?_, by omega⟩
        · apply List.ne_nil_of_length_pos
          rw [Parser.length_stack]
          omega
        · rw [hat.consumed]
          omega

end Step

/-! ### Whole messages -/

section Message

variable {view : Bytes} {p q : Parser} {nds : List Node} {isOpen : Bool}

theorem OpenStream.not_done (h : OpenStream view true p) (hp : p.Valid view) :
  p.done = false
  := by
  obtain ⟨c, st, hstack, hne, -⟩ := h rfl
  by_contra hd
  have := hp.bottom (by simpa using hd)
  rw [hstack] at this
  exact hne (List.cons.inj this).2

/-- Inside a streamed string that is ended, no part stands at the very end of the view. -/
theorem OpenStream.not_ghost {l : Line} {r : Parser} {st : List ℕ} {nd : Node}
    (hopen : OpenStream view true p) (hp : p.Valid view) (hv : view.length < 2 ^ 64)
    (hc : p.Consumes view nd r) (hl : p.nextLine view = some l)
    (heff : l.effect p.stack = some st) (hat : r.At st l.finish) (hfit : l.finish ≤ view.length)
    (hr : Run (Parser.Consumes view) r nds q) (hq : q.done = true) :
  ¬ l.Ghost view
  := by
  rintro ⟨⟨n, hn⟩, -, hend⟩
  have hfin := l.next_le_finish
  obtain ⟨hlt, -⟩ := Parser.nextLine_next hl
  obtain ⟨c, st', hstack, hne, hcount, hc'⟩ := hopen rfl
  have hvalid := hp.consume hv hc.not_done hc.consume
  have hr_open : OpenStream view true r := by
    intro _
    obtain ⟨c, rfl⟩ : ∃ c', c = c' + 1 := ⟨c - 1, by omega⟩
    simp only [Line.effect, hn, hstack, commit, predSize_succ hc'] at heff
    rw [if_neg (by omega)] at heff
    obtain rfl := Option.some.inj heff
    refine ⟨c, st', hat.stack, hne, ?_, by omega⟩
    rw [hat.consumed]
    omega
  cases hr with
  | nil =>
      have := hr_open.not_done hvalid
      rw [hq] at this
      cases this
  | cons hc₁ _ =>
      obtain ⟨l', -, hl', -⟩ := hvalid.line_of_consumes hv hat.bulk hc₁
      have := Parser.nextLine_next hl'
      rw [hat.consumed] at this
      omega

/-- Along a run to the end of a message, the scan accepts the nodes exactly when the headers of
parts are those inside a streamed string. -/
theorem scan_iff_streams (hr : Run (Parser.Consumes view) p nds q) (hv : view.length < 2 ^ 64)
    (hp : p.Valid view) (hb : p.bulk = .invalid) (hq : q.done = true)
    (hopen : OpenStream view isOpen p) :
  scan (scanState isOpen p.depth) nds = true ↔ Streams view isOpen p
  := by
  induction hr generalizing isOpen with
  | nil =>
      cases isOpen with
      | true =>
          have := hopen.not_done hp
          rw [hq] at this
          cases this
      | false => exact ⟨fun _ => Headers.of_done hq, fun _ => rfl⟩
  | @cons p r q nd nds hc hr ih =>
      obtain ⟨l, st, hl, rfl, heff, hfit, hat⟩ := hp.line_of_consumes hv hb hc
      obtain ⟨hnext, -⟩ := Parser.nextLine_next hl
      have hfin := l.next_le_finish
      have hvalid := hp.consume hv hc.not_done hc.consume
      by_cases hplace : l.type = .streamedStringPart ↔ isOpen = true
      · have hstep : scan (scanState isOpen p.depth) (l.node view p.depth :: nds)
              = scan (scanState (l.streaming isOpen) r.depth) nds ∧
            OpenStream view (l.streaming isOpen) r := by
          cases isOpen with
          | true =>
              have hghost := hopen.not_ghost hp hv hc hl heff hat hfit hr hq
              apply step_part hopen (hplace.mpr rfl) heff hat (by omega) hfit hghost
          | false => apply step_plain (by simpa using hplace) hv heff hat (by omega)
        rw [hstep.1, ih hvalid hat.bulk hq hstep.2]
        constructor
        · intro h
          exact Headers.of_consumes hl hplace hc h
        · intro h
          exact Headers.tail h hl hc
      · rw [scan_of_misplaced heff hplace]
        constructor
        · intro h
          cases h
        · intro h
          exact absurd (Headers.head h hc.not_done hl) hplace

end Message

/-- The streamed strings of a message that is accepted are well bracketed exactly when its
headers of parts are those read after the start of a streamed string and up to its end. -/
theorem bracketed_iff_streams {σ : Type} (s : Bytes) (hs : s.length < 2 ^ 64) (adapter : Adapter σ)
    (t : σ) (hdone : (parse .fresh s adapter t).status = .done) :
  Bracketed (parse .fresh s adapter t).nodes ↔ Streams s false .fresh
  := by
  obtain ⟨hr, hq⟩ := parse_run_of_done hdone
  have hclosed : OpenStream s false .fresh := by
    intro h
    cases h
  rw [bracketed_iff]
  apply scan_iff_streams hr hs (Parser.fresh_valid s) rfl hq hclosed

theorem bracketed_iff_streams_array :
  Bracketed (parse .fresh (ascii "*2\r\n$?\r\n;2\r\nhh\r\n;0\r\n:1\r\n") accepting ()).nodes ↔
    Streams (ascii "*2\r\n$?\r\n;2\r\nhh\r\n;0\r\n:1\r\n") false .fresh
  := bracketed_iff_streams _ (by decide) accepting () (by decide)

/-- A part is accepted outside of streamed strings, and a number inside of one. -/
theorem bracketed_fails :
  ((parse .fresh (ascii ";2\r\nhh\r\n") accepting ()).status = .done ∧
    ¬ Bracketed (parse .fresh (ascii ";2\r\nhh\r\n") accepting ()).nodes) ∧
  ((parse .fresh (ascii "$?\r\n:1\r\n;0\r\n") accepting ()).status = .done ∧
    ¬ Bracketed (parse .fresh (ascii "$?\r\n:1\r\n;0\r\n") accepting ()).nodes)
  := by
  refine ⟨⟨by decide, ?_⟩, by decide, ?_⟩
  · rw [bracketed_iff]
    decide
  · rw [bracketed_iff]
    decide

end Resp3
