import Stencil.Proofs.View.Positions
import Stencil.Proofs.View.Tiling

/-!
# Every text is read

A whole text can be read by positions: from at sign to at sign, with the groups of a match of the
pattern that begins a directive, with text that waits for the next directive, and with a count of
lines that only goes forward. This reading never slips and comes to an end. It finds the pieces of
the text, so that every text is a view or has one fault, on one of its lines.
-/

namespace Stencil

namespace Positions

/-! # Headers -/

abbrev Found := List (Option String)

/-- A group that is used without a look whether it took part. -/
def group (found : Found) (n : Nat) : Except Halt String :=
  match found[n]? with
  | some (some s) => .ok s
  | _ => .error (.slip .noGroup)

def eachMatch? (header : List Char) : Option Found :=
  let named := Text.trimStart header
  let n := nameLength named
  if n == 0 then none
  else
    let item := String.ofList (named.take n)
    match indexName? (named.drop n) with
    | some (index, rest) =>
        (collectionAfterIn? rest).map fun found => [some item, some index, String.ofList found]
    | none =>
        (collectionAfterIn? (named.drop n)).map fun found => [some item, none, String.ofList found]

def eachHeader (header : List Char) : Except Halt Directive :=
  if Text.allBlank header then throw (.fault .noCollection)
  else
    match eachMatch? header with
    | some found => do
        let item ← group found 0
        let collection ← group found 2
        return .openEach item ((found[1]?.join).getD defaultIndex) collection
    | none => return .openEach defaultItem defaultIndex (trimmed header)

def includeMatch? (header : List Char) : Option Found :=
  (includeParts? header).map fun parts =>
    [some (String.ofList parts.1), parts.2.map String.ofList]

def includeHeader (header : List Char) : Except Halt Directive :=
  match includeMatch? header with
  | none => throw (.fault .pathNotLiteral)
  | some found => do
      let literal ← group found 0
      let path := unquote literal
      if path.saysNothing then throw (.fault .emptyPath)
      match found[1]?.join with
      | none => return .inclusion path none
      | some data =>
          if Text.allBlank data.toList then throw (.fault .emptyIncludeData)
          return .inclusion path (some (Text.strip data))

def headerMeaning (keyword : String) (header : List Char) : Except Halt Directive :=
  if keyword == "if" then Halt.unslipped (readIf header)
  else if keyword == "elif" then Halt.unslipped (readElif header)
  else if keyword == "each" then eachHeader header
  else includeHeader header

/-! # Declarations -/

def targetAt (text : List Char) (pos : Nat) : Except Halt (Pattern × Nat) :=
  match text[pos]? with
  | none => throw (.fault .noTarget)
  | some c =>
      if c == '\x7b' || c == '[' then do
        let close ← bracketEnd text "@var" pos
        let pattern ← Halt.unslipped (readPattern c (slice text (pos + 1) close))
        return (pattern, close + 1)
      else
        let n := nameLength (text.drop pos)
        if n == 0 then throw (.fault .noTarget)
        else return (.name (String.ofList (slice text pos (pos + n))), pos + n)

def assignmentAt (text : List Char) (pos : Nat) : Except Halt (String × Nat) :=
  match assignmentLength? (text.drop pos) with
  | none => throw (.fault .noAssignment)
  | some n => do
      match ← semicolonFrom text (text.length + 1) 0 (pos + n) with
      | none => throw (.fault .noSemicolon)
      | some semicolon =>
          let value := slice text (pos + n) semicolon
          if Text.allBlank value then throw (.fault .noValue)
          let stop ← blanksFrom text (text.length + 1) (semicolon + 1)
          return (trimmed value, stop)

def declarationAt (text : List Char) (pos : Nat) : Except Halt (Directive × Nat) := do
  let (pattern, behind) ← targetAt text pos
  let (expression, stop) ← assignmentAt text behind
  return (.declaration pattern expression, stop)

/-! # Directives -/

/-- The groups of the pattern that begins a directive. One of them takes part in a match. -/
structure Groups where
  interpolation : Bool := false
  block : Option String := none
  declaration : Bool := false
  bare : Option String := none
  shorthand : Option String := none
  stop : Nat

def groups? (text : List Char) (start : Nat) : Option Groups :=
  let cs := text.drop (start + 1)
  if cs.head? == some '\x7b' then some { interpolation := true, stop := start + 2 }
  else
    match headed.findSome? fun h => (headerStart? h.1 cs).map fun n => (h, n) with
    | some (h, n) => some { block := some h.1, stop := start + 1 + n }
    | none =>
        if "var".toList.isPrefixOf cs && blankLength (cs.drop 3) != 0 then
          some { declaration := true, stop := start + 1 + (3 + blankLength (cs.drop 3)) }
        else if isWordFirst "else" cs then some { bare := some "else", stop := start + 5 }
        else if isWordFirst "end" cs then some { bare := some "end", stop := start + 4 }
        else
          let n := pathLength cs
          if n == 0 then none
          else some { shorthand := some (String.ofList (cs.take n)), stop := start + 1 + n }

def directiveOf (text : List Char) (g : Groups) : Except Halt (Directive × Nat) :=
  if g.interpolation then do
    let last ← bracketEnd text "@\x7b" (g.stop - 1)
    let inner := slice text g.stop last
    if Text.allBlank inner then throw (.fault .emptyInterpolation)
    return (.interpolation (trimmed inner), last + 1)
  else
    match g.shorthand with
    | some path => return (.shorthand path, g.stop)
    | none =>
        if g.declaration then declarationAt text g.stop
        else if g.bare == some "else" then return (.otherwise, g.stop)
        else if g.bare == some "end" then return (.close, g.stop)
        else do
          let keyword ← group [g.block] 0
          let last ← bracketEnd text ("@" ++ keyword) (g.stop - 1)
          let meaning ← headerMeaning keyword (slice text g.stop last)
          return (meaning, last + 1)

/-! # No reading of a directive slips -/

theorem eachMatch?_cases (header : List Char) :
    eachMatch? header = none ∧ eachNames? header = none ∨
      ∃ item index collection,
        eachMatch? header = some [some item, index, some (String.ofList collection)] ∧
          eachNames? header = some (item, index.getD defaultIndex, collection) := by
  unfold eachMatch? eachNames?
  dsimp only
  by_cases hname : (nameLength (Text.trimStart header) == 0) = true
  · rw [if_pos hname, if_pos hname]
    exact .inl ⟨rfl, rfl⟩
  · rw [if_neg hname, if_neg hname]
    cases indexName? ((Text.trimStart header).drop (nameLength (Text.trimStart header))) with
    | none =>
        dsimp only
        cases collectionAfterIn?
          ((Text.trimStart header).drop (nameLength (Text.trimStart header))) with
        | none => exact .inl ⟨rfl, rfl⟩
        | some collection => exact .inr ⟨_, none, collection, rfl, rfl⟩
    | some named =>
        rcases named with ⟨index, rest⟩
        dsimp only
        cases collectionAfterIn? rest with
        | none => exact .inl ⟨rfl, rfl⟩
        | some collection => exact .inr ⟨_, some index, collection, rfl, rfl⟩

theorem eachHeader_eq (header : List Char) :
    eachHeader header = Halt.unslipped (readEach header) := by
  unfold eachHeader readEach
  by_cases hblank : Text.allBlank header = true
  · rw [if_pos hblank, if_pos hblank]
    rfl
  · rw [if_neg hblank, if_neg hblank]
    rcases eachMatch?_cases header with ⟨hmatch, hnames⟩ | ⟨item, index, collection, hmatch, hnames⟩
    · rw [hmatch, hnames]
      rfl
    · rw [hmatch, hnames]
      rfl

theorem includeHeader_eq (header : List Char) :
    includeHeader header = Halt.unslipped (readInclude header) := by
  unfold includeHeader readInclude includeMatch?
  cases includeParts? header with
  | none => rfl
  | some parts =>
      rcases parts with ⟨literal, data⟩
      cases data with
      | none =>
          change (if (unquote (String.ofList literal)).saysNothing then _ else _) = _
          dsimp only
          split <;> rfl
      | some given =>
          have hblank : Text.allBlank (String.ofList given).toList = Text.allBlank given := by
            rw [String.toList_ofList]
          have hstrip : Text.strip (String.ofList given) = trimmed given := by
            rw [Text.strip, String.toList_ofList, trimmed]
          change (if (unquote (String.ofList literal)).saysNothing then _ else
            (if Text.allBlank (String.ofList given).toList then _ else _)) = _
          rw [hblank, hstrip]
          dsimp only
          split
          · rfl
          · split <;> rfl

theorem headerMeaning_eq {kind : String × (List Char → Except StructureFault Directive)}
    (hkind : kind ∈ headed) (header : List Char) :
    headerMeaning kind.1 header = Halt.unslipped (kind.2 header) := by
  simp only [headed, List.mem_cons, List.not_mem_nil, or_false] at hkind
  rcases hkind with rfl | rfl | rfl | rfl
  · rfl
  · rfl
  · exact eachHeader_eq header
  · exact includeHeader_eq header

def placed {α : Type} (pos : Nat) (result : Except StructureFault (α × Nat)) :
    Except Halt (α × Nat) :=
  Halt.unslipped (result.map fun found => (found.1, pos + found.2))

theorem targetAt_eq (text : List Char) (pos : Nat) :
    targetAt text pos = placed pos (readTarget (text.drop pos)) := by
  unfold targetAt readTarget
  rw [← List.head?_drop]
  cases hdrop : text.drop pos with
  | nil => rfl
  | cons c rest =>
      dsimp only [List.head?_cons]
      by_cases hopener : (c == '\x7b' || c == '[') = true
      · rw [if_pos hopener, if_pos hopener]
        have hpair : closerOf? c = some (if c == '[' then ']' else '\x7d') := by
          rw [Bool.or_eq_true, beq_iff_eq, beq_iff_eq] at hopener
          rcases hopener with rfl | rfl <;> rfl
        rw [bracketEnd_eq hpair hdrop]
        cases balancedLength "@var" (if c == '[' then ']' else '\x7d') [] 0 rest with
        | error e => rfl
        | ok n =>
            have hinner := slice_of_drop (drop_succ_of_drop hdrop) n
            change (do
              let pattern ← Halt.unslipped (readPattern c (slice text (pos + 1) (pos + 1 + n)))
              return (pattern, pos + 1 + n + 1)) = _
            have hsum : pos + 1 + n + 1 = pos + (n + 2) := by omega
            rw [hinner, hsum]
            dsimp only
            cases readPattern c (rest.take n) <;> rfl
      · rw [if_neg hopener, if_neg hopener, slice_of_drop hdrop]
        split <;> rfl

theorem assignmentAt_eq (text : List Char) (pos : Nat) :
    assignmentAt text pos = placed pos (readAssignment (text.drop pos)) := by
  unfold assignmentAt readAssignment
  cases assignmentLength? (text.drop pos) with
  | none => rfl
  | some n =>
      dsimp only
      rw [semicolonFrom_eq (by omega), ← List.drop_drop, Grammar.bind_ok]
      cases statementLength? 0 0 ((text.drop pos).drop n) with
      | none => rfl
      | some length =>
          have hvalue := slice_of_drop (List.drop_drop (l := text) (i := n) (j := pos)).symm length
          dsimp only [Option.map_some]
          rw [hvalue]
          change (if Text.allBlank _ then _ else
            (do let stop ← blanksFrom text (text.length + 1) (pos + n + length + 1); _)) = _
          split
          · rfl
          · have hsum : pos + n + length + 1 = pos + n + (length + 1) := by omega
            have htotal (blanks : Nat) :
                pos + n + (length + 1) + blanks = pos + (n + length + 1 + blanks) := by omega
            rw [blanksFrom_eq (by omega), hsum, htotal, List.drop_drop, List.drop_drop]
            rfl

theorem declarationAt_eq (text : List Char) (pos start : Nat) :
    declarationAt text (pos + start) = placed pos (readDeclaration (text.drop pos) start) := by
  rw [declarationAt, targetAt_eq, readDeclaration, List.drop_drop]
  cases readTarget (text.drop (pos + start)) with
  | error e => rfl
  | ok found =>
      change (assignmentAt text (pos + start + found.2)).map
        (fun value => (Directive.declaration found.1 value.1, value.2)) = _
      have hdrop : (text.drop pos).drop (start + found.2) = text.drop (pos + start + found.2) := by
        rw [List.drop_drop, Nat.add_assoc]
      rw [assignmentAt_eq, Grammar.bind_ok]
      dsimp only
      rw [hdrop]
      cases readAssignment (text.drop (pos + start + found.2)) with
      | error e => rfl
      | ok value =>
          have hsum : pos + start + found.2 + value.2 = pos + (start + found.2 + value.2) := by
            omega
          change Except.ok (Directive.declaration found.1 value.1, _) = _
          dsimp only
          rw [hsum]
          rfl

section Directives

variable {text : List Char} {start : Nat}

theorem interpolation_eq (hhead : (text.drop (start + 1)).head? = some '\x7b') :
    directiveOf text { interpolation := true, stop := start + 2 } =
      placed (start + 1) (readInterpolation (text.drop (start + 1))) := by
  rcases List.head?_eq_some_iff.mp hhead with ⟨rest, hdrop⟩
  have hpair : closerOf? '\x7b' = some '\x7d' := rfl
  unfold directiveOf readInterpolation
  rw [if_pos rfl, hdrop]
  change (do
    let last ← bracketEnd text "@\x7b" (start + 1)
    _) = _
  rw [bracketEnd_eq hpair hdrop]
  change _ = placed (start + 1) (do
    let n ← balancedLength "@\x7b" '\x7d' [] 0 rest
    _)
  cases balancedLength "@\x7b" '\x7d' [] 0 rest with
  | error e => rfl
  | ok n =>
      have hinner := slice_of_drop (drop_succ_of_drop hdrop) n
      change (if Text.allBlank (slice text (start + 1 + 1) (start + 1 + 1 + n)) then _ else
        Except.ok (Directive.interpolation
          (trimmed (slice text (start + 1 + 1) (start + 1 + 1 + n))), _)) = _
      have hsum : start + 1 + 1 + n + 1 = start + 1 + (n + 2) := by omega
      rw [hinner, hsum, Grammar.bind_ok]
      change _ = placed (start + 1) (if Text.allBlank (rest.take n) then _ else _)
      split <;> rfl

theorem header_eq {kind : String × (List Char → Except StructureFault Directive)} {n : Nat}
    (hkind : kind ∈ headed) (hstart : headerStart? kind.1 (text.drop (start + 1)) = some n) :
    directiveOf text { block := some kind.1, stop := start + 1 + n } =
      placed (start + 1) (readHeader kind.1 (text.drop (start + 1)) n kind.2) := by
  rcases exists_of_headerStart? hstart with ⟨blanks, rest, hcs, hblanks, hn, hrest⟩
  have hparenthesis : text.drop (start + 1 + n - 1) = '(' :: rest := by
    have hsum : start + 1 + n - 1 = start + 1 + (kind.1.length + blanks.length) := by omega
    rw [hsum, ← List.drop_drop, hcs, ← List.drop_drop, ← String.length_toList, List.drop_left,
      List.drop_left]
  have hpair : closerOf? '(' = some ')' := rfl
  have hpos : start + 1 + n - 1 + 1 = start + 1 + n := by omega
  unfold directiveOf readHeader
  change (do
    let last ← bracketEnd text ("@" ++ kind.1) (start + 1 + n - 1)
    let meaning ← headerMeaning kind.1 (slice text (start + 1 + n) last)
    return (meaning, last + 1)) = _
  rw [bracketEnd_eq hpair hparenthesis, hpos, hrest]
  cases balancedLength ("@" ++ kind.1) ')' [] 0 rest with
  | error e => rfl
  | ok length =>
      have hdrop : text.drop (start + 1 + n) = rest := by rw [← List.drop_drop, hrest]
      change (do
        let meaning ← headerMeaning kind.1 (slice text (start + 1 + n) (start + 1 + n + length))
        return (meaning, start + 1 + n + length + 1)) = _
      rw [slice_of_drop hdrop, headerMeaning_eq hkind]
      have hsum : start + 1 + n + length + 1 = start + 1 + (n + length + 1) := by omega
      rw [hsum, Grammar.bind_ok]
      cases kind.2 (rest.take length) <;> rfl

def directiveAt (text : List Char) (start : Nat) : Except Halt (Option (Directive × Nat)) :=
  match groups? text start with
  | none => .ok none
  | some g => (directiveOf text g).map some

theorem groups?_cases (text : List Char) (start : Nat) :
    (groups? text start = none ∧ Directive.read? (text.drop (start + 1)) = none) ∨
      ∃ g result, groups? text start = some g ∧
        Directive.read? (text.drop (start + 1)) = some result ∧
          directiveOf text g = placed (start + 1) result := by
  unfold groups? Directive.read?
  dsimp only
  by_cases hhead : ((text.drop (start + 1)).head? == some '\x7b') = true
  · rw [if_pos hhead, if_pos hhead]
    exact .inr ⟨_, _, rfl, rfl, interpolation_eq (beq_iff_eq.mp hhead)⟩
  · rw [if_neg hhead, if_neg hhead]
    cases hkind : headed.findSome? fun h =>
        (headerStart? h.1 (text.drop (start + 1))).map fun n => (h, n) with
    | some found =>
        rcases List.exists_of_findSome?_eq_some hkind with ⟨kind, hmem, hstart⟩
        rcases Option.map_eq_some_iff.mp hstart with ⟨n, hn, rfl⟩
        exact .inr ⟨_, _, rfl, rfl, header_eq hmem hn⟩
    | none =>
        dsimp only
        split
        · exact .inr ⟨_, _, rfl, rfl, declarationAt_eq text (start + 1) _⟩
        · split
          · exact .inr ⟨_, _, rfl, rfl, rfl⟩
          · split
            · exact .inr ⟨_, _, rfl, rfl, rfl⟩
            · split
              · exact .inl ⟨rfl, rfl⟩
              · exact .inr ⟨_, _, rfl, rfl, rfl⟩

theorem directiveAt_cases (text : List Char) (start : Nat) :
    (directiveAt text start = .ok none ∧ Directive.read? (text.drop (start + 1)) = none) ∨
      ∃ result, Directive.read? (text.drop (start + 1)) = some result ∧
        directiveAt text start = (placed (start + 1) result).map some := by
  rcases groups?_cases text start with ⟨hgroups, hread⟩ | ⟨g, result, hgroups, hread, hplaced⟩
  · rw [directiveAt, hgroups]
    exact .inl ⟨rfl, hread⟩
  · rw [directiveAt, hgroups]
    exact .inr ⟨result, hread, congrArg (Except.map some) hplaced⟩

end Directives

/-! # Whole texts -/

/-- The line of an offset that has been passed, from which lines are counted on. -/
structure LineCount where
  offset : Nat
  line : Nat

/-- The line of an offset. What has been passed is counted again only for an offset before it. -/
def LineCount.lineOf (lines : LineCount) (text : List Char) (offset : Nat) : Nat × LineCount :=
  if offset < lines.offset then (lineAt text offset, lines)
  else
    let line := lines.line + (slice text lines.offset offset).count '\n'
    (line, ⟨offset, line⟩)

structure Pending where
  lines : LineCount
  waiting : Option (Nat × List Char)

namespace Pending

def append (pending : Pending) (text chunk : List Char) (offset : Nat) : Pending :=
  if chunk.isEmpty then pending
  else
    match pending.waiting with
    | none =>
        let (line, lines) := pending.lines.lineOf text offset
        ⟨lines, some (line, chunk)⟩
    | some (line, cs) => ⟨pending.lines, some (line, cs ++ chunk)⟩

def flush (pending : Pending) (pieces : List Piece) : List Piece :=
  match pending.waiting with
  | none => pieces
  | some (line, cs) => .text line cs :: pieces

end Pending

def findSign? (text : List Char) (pos : Nat) : Option Nat :=
  ((text.drop pos).findIdx? (· == '@')).map (pos + ·)

def piecesAt (text : List Char) : Nat → Pending → Nat → Except Slip (List Piece)
  | 0, _, _ => .error .endless
  | fuel + 1, pending, pos =>
      match findSign? text pos with
      | none => .ok ((pending.append text (slice text pos text.length) pos).flush [])
      | some start =>
          let before := pending.append text (slice text pos start) pos
          match directiveAt text start with
          | .ok none =>
              piecesAt text fuel (before.append text (slice text start (start + 1)) start) (start + 1)
          | .ok (some (meaning, stop)) =>
              let (line, lines) := before.lines.lineOf text start
              (piecesAt text fuel ⟨lines, none⟩ stop).map fun rest =>
                before.flush (.directive line (slice text start stop) meaning :: rest)
          | .error (.fault fault) =>
              .ok (before.flush [.fault (before.lines.lineOf text start).1 fault])
          | .error (.slip slip) => .error slip

/-! # No reading of a text slips -/

variable {text : List Char}

def LineCount.IsExact (text : List Char) (lines : LineCount) : Prop :=
  lines.line = lineAt text lines.offset

theorem LineCount.lineOf_eq {lines : LineCount} (h : lines.IsExact text) (offset : Nat) :
    (lines.lineOf text offset).1 = lineAt text offset ∧
      (lines.lineOf text offset).2.IsExact text := by
  unfold lineOf
  by_cases hbehind : offset < lines.offset
  · rw [if_pos hbehind]
    exact ⟨rfl, h⟩
  · have hline : lines.line + (slice text lines.offset offset).count '\n' = lineAt text offset := by
      have hsum : lines.offset + (offset - lines.offset) = offset := by omega
      have htake := List.take_add (l := text) (i := lines.offset) (j := offset - lines.offset)
      rw [hsum] at htake
      rw [h, lineAt, lineAt, htake, List.count_append, slice, Nat.add_assoc]
    rw [if_neg hbehind]
    exact ⟨hline, hline⟩

/-- What waits at a position is the literal text from an origin on. -/
inductive Holds (text : List Char) : Pending → Nat → Nat → Prop where
  | nothing {lines : LineCount} {pos : Nat} :
      lines.IsExact text → Holds text ⟨lines, none⟩ pos pos
  | waiting {lines : LineCount} {origin pos : Nat} :
      lines.IsExact text → origin < pos → pos ≤ text.length → IsLiteral text origin pos →
      Holds text ⟨lines, some (lineAt text origin, slice text origin pos)⟩ origin pos

namespace Holds

variable {pending : Pending} {origin pos next : Nat} {pieces : List Piece}

theorem isExact (h : Holds text pending origin pos) : pending.lines.IsExact text := by
  cases h with
  | nothing hlines => exact hlines
  | waiting hlines => exact hlines

theorem append (h : Holds text pending origin pos) (hpos : pos ≤ next) (hnext : next ≤ text.length)
    (hliteral : IsLiteral text pos next) :
    Holds text (pending.append text (slice text pos next) pos) origin next := by
  rcases Nat.eq_or_lt_of_le hpos with rfl | hahead
  · rw [slice_self]
    exact h
  · have hsome : ¬ (slice text pos next).isEmpty = true := by
      simpa using slice_ne_nil hahead hnext
    unfold Pending.append
    rw [if_neg hsome]
    cases h with
    | nothing hlines =>
        rcases LineCount.lineOf_eq hlines origin with ⟨hline, hexact⟩
        dsimp only
        rw [hline]
        exact .waiting hexact hahead hnext hliteral
    | waiting hlines hwaiting hinside hbefore =>
        dsimp only
        rw [slice_append (Nat.le_of_lt hwaiting) hpos]
        exact .waiting hlines (Nat.lt_trans hwaiting hahead) hnext (hbefore.append hliteral)

theorem flush (h : Holds text pending origin pos) (hlaid : Laid text pos pieces)
    (hhead : ∀ piece ∈ pieces.head?, piece.isText = false) :
    Laid text origin (pending.flush pieces) := by
  cases h with
  | nothing hlines => exact hlaid
  | waiting hlines hahead hinside hliteral => exact .text hahead hinside hliteral hhead hlaid

end Holds

theorem findSign?_cases (text : List Char) (pos : Nat) :
    (findSign? text pos = none ∧ IsLiteral text pos text.length) ∨
      ∃ start, findSign? text pos = some start ∧ pos ≤ start ∧ text[start]? = some '@' ∧
        IsLiteral text pos start := by
  unfold findSign?
  cases hfind : (text.drop pos).findIdx? (· == '@') with
  | none =>
      refine .inl ⟨rfl, ?_⟩
      intro i hi _ hbegins
      have hmem : '@' ∈ text.drop pos := by
        rw [List.mem_iff_getElem?]
        refine ⟨i - pos, ?_⟩
        rw [List.getElem?_drop, Nat.add_sub_cancel' hi, hbegins.sign]
      have hnot := List.findIdx?_eq_none_iff.mp hfind '@' hmem
      cases hnot
  | some n =>
      rcases List.findIdx?_eq_some_iff_getElem.mp hfind with ⟨hlength, hsign, hbefore⟩
      refine .inr ⟨pos + n, rfl, Nat.le_add_right pos n, ?_, ?_⟩
      · rw [← List.getElem?_drop, List.getElem?_eq_getElem hlength, beq_iff_eq.mp hsign]
      · intro i hi hlt hbegins
        have hearlier := hbefore (i - pos) (by omega)
        have hchar : (text.drop pos)[i - pos]? = some '@' := by
          rw [List.getElem?_drop, Nat.add_sub_cancel' hi, hbegins.sign]
        rcases List.getElem?_eq_some_iff.mp hchar with ⟨hinside, hsame⟩
        rw [hsame] at hearlier
        exact absurd rfl hearlier

theorem exists_piecesAt {fuel : Nat} {pending : Pending} {origin pos : Nat}
    (hfuel : text.length - pos < fuel) (hpos : pos ≤ text.length)
    (h : Holds text pending origin pos) :
    ∃ pieces, piecesAt text fuel pending pos = .ok pieces ∧ Laid text origin pieces := by
  -- The origin is where the waiting text begins; it stays while at signs are passed over.
  induction fuel generalizing pending origin pos with
  | zero => cases hfuel
  | succ fuel ih =>
      rw [piecesAt]
      rcases findSign?_cases text pos with
        ⟨hfind, hliteral⟩ | ⟨start, hfind, hstart, hsign, hliteral⟩
      · rw [hfind]
        have hrest := h.append hpos (Nat.le_refl _) hliteral
        exact ⟨_, rfl, hrest.flush (.done rfl) (by simp)⟩
      · have hinside := lt_length_of_sign hsign
        have hbefore := h.append hstart (Nat.le_of_lt hinside) hliteral
        rw [hfind]
        dsimp only
        rcases directiveAt_cases text start with ⟨hnone, hread⟩ | ⟨result, hread, hplaced⟩
        · rw [hnone]
          have hsilent : IsLiteral text start (start + 1) :=
            .single fun hbegins => hbegins.read hread
          exact ih (by omega) hinside (hbefore.append (Nat.le_succ start) hinside hsilent)
        · have hline := (LineCount.lineOf_eq hbefore.isExact start).1
          have hlines := (LineCount.lineOf_eq hbefore.isExact start).2
          rw [hplaced]
          cases result with
          | error fault =>
              change ∃ pieces, Except.ok (Pending.flush _ [.fault _ fault]) = .ok pieces ∧ _
              rw [hline]
              exact ⟨_, rfl, hbefore.flush (.fault ⟨hsign, hread⟩) (by simp [Piece.isText])⟩
          | ok found =>
              have hstands := stands_of_read? hsign hread
              have hahead := hstands.ahead
              rcases ih (by omega) hstands.inside (.nothing hlines) with ⟨rest, hrest, hlaid⟩
              change ∃ pieces, (piecesAt text fuel ⟨_, none⟩ (start + 1 + found.2)).map _ =
                .ok pieces ∧ _
              rw [hrest, hline]
              exact ⟨_, rfl, hbefore.flush (.directive hstands hlaid) (by simp [Piece.isText])⟩

end Positions

/-! # Totality -/

namespace View

open Positions

def parseByPositions (text : String) : Except Slip (Except StructureError (List Node)) :=
  (piecesAt text.toList (text.toList.length + 1) ⟨⟨0, 1⟩, none⟩ 0).map fun pieces => do
    let b ← pieces.foldlM Builder.addPiece Builder.empty
    b.result

theorem lineAt_le (text : List Char) (offset : Nat) : lineAt text offset ≤ 1 + text.count '\n' :=
  Nat.add_le_add_left ((List.take_sublist offset text).count_le '\n') 1

/--
Every text is a view or has a fault in its structure, on one of its lines. Reading it by positions
comes to the same end: it never looks outside of the text, at an empty stack of brackets, for the
partner of what is no bracket or at a group that took no part in a match, and none of its loops
takes more steps than there are characters and one.
-/
theorem parse_total (text : String) :
    parseByPositions text = .ok (parse text) ∧
      ((∃ nodes, parse text = .ok nodes) ∨
        ∃ e, parse text = .error e ∧ 1 ≤ e.line ∧ e.line ≤ 1 + text.toList.count '\n' ∧
          ∀ view, (structureError e view).code = "PARSE_STRUCTURE" ∧
            (structureError e view).line = some (.number e.line)) := by
  constructor
  · have hexact : LineCount.IsExact text.toList ⟨0, 1⟩ := rfl
    have hfuel : text.toList.length - 0 < text.toList.length + 1 := Nat.lt_succ_self _
    rcases exists_piecesAt hfuel (Nat.zero_le _) (.nothing hexact) with ⟨pieces, hpieces, hlaid⟩
    rw [parseByPositions, hpieces, hlaid.unique (Laid.ofText text.toList)]
    rfl
  · cases hparse : parse text with
    | ok nodes => exact .inl ⟨nodes, rfl⟩
    | error e =>
        rcases atFault_of_parse hparse with ⟨offset, -, -, hline⟩
        refine .inr ⟨e, rfl, ?_, ?_, ?_⟩
        · rw [hline]
          exact Nat.le_add_right 1 _
        · rw [hline]
          exact lineAt_le text.toList offset
        · intro view
          cases view with
          | none => exact ⟨rfl, rfl⟩
          | some name => exact ⟨rfl, rfl⟩

end View
end Stencil
