import Stencil.Proofs.View.Layout

/-!
# Scanning by positions

A scan may also go through a text by positions: it looks at the character at a position, keeps the
brackets that are open on a stack, and jumps ahead. Nothing in its form keeps it from looking past
the end of the text, from taking a bracket off an empty stack, or from never coming to an end. Here
each of these is an outcome of its own. None of them comes about: a scan by positions finds what
the scan of the characters that are left finds, in no more steps than there are characters and one.
-/

namespace Stencil

/-- What a scan by positions could trip over. -/
inductive Slip where
  | outside
  | emptyStack
  | noBracket
  | noGroup
  | endless
deriving DecidableEq, Repr

inductive Halt where
  | slip (slip : Slip)
  | fault (fault : StructureFault)
deriving DecidableEq, Repr

def Halt.unslipped {α : Type} : Except StructureFault α → Except Halt α
  | .ok a => .ok a
  | .error e => .error (.fault e)

namespace Positions

/-! # Steps that may slip -/

def charAt (text : List Char) (pos : Nat) : Except Halt Char :=
  match text[pos]? with
  | some c => .ok c
  | none => .error (.slip .outside)

def innermost : List Char → Except Halt Char
  | top :: _ => .ok top
  | [] => .error (.slip .emptyStack)

def popped : List Char → Except Halt (List Char)
  | _ :: below => .ok below
  | [] => .error (.slip .emptyStack)

def closerAt (text : List Char) (pos : Nat) : Except Halt Char := do
  let c ← charAt text pos
  match closerOf? c with
  | some closer => return closer
  | none => throw (.slip .noBracket)

/-! # Scans -/

def quoteFrom (text : List Char) (mark : Char) : Nat → Nat → Except Halt (Option Nat)
  | 0, _ => .error (.slip .endless)
  | fuel + 1, pos =>
      if pos < text.length then do
        let c ← charAt text pos
        if c == '\\' then quoteFrom text mark fuel (pos + 2)
        else if c == mark then return some pos
        else quoteFrom text mark fuel (pos + 1)
      else return none

def literalEnd (text : List Char) (pos : Nat) : Except Halt (Option Nat) := do
  let mark ← charAt text pos
  quoteFrom text mark (text.length + 1) (pos + 1)

def bracketFrom (text : List Char) (directive : String) :
    Nat → List Char → Nat → Except Halt Nat
  | 0, _, _ => .error (.slip .endless)
  | fuel + 1, stack, pos =>
      if pos < text.length then do
        let c ← charAt text pos
        if isQuote c then
          match ← literalEnd text pos with
          | some last => bracketFrom text directive fuel stack (last + 1)
          | none => throw (.fault (.unterminatedString directive))
        else
          match closerOf? c with
          | some closer => bracketFrom text directive fuel (closer :: stack) (pos + 1)
          | none =>
              if isCloser c then do
                let top ← innermost stack
                if c == top then do
                  let below ← popped stack
                  if below.isEmpty then return pos
                  else bracketFrom text directive fuel below (pos + 1)
                else throw (.fault (.mismatched c directive))
              else bracketFrom text directive fuel stack (pos + 1)
      else do
        let top ← innermost stack
        throw (.fault (.unterminated directive top))

def bracketEnd (text : List Char) (directive : String) (pos : Nat) : Except Halt Nat := do
  let closer ← closerAt text pos
  bracketFrom text directive (text.length + 1) [closer] (pos + 1)

def semicolonFrom (text : List Char) : Nat → Int → Nat → Except Halt (Option Nat)
  | 0, _, _ => .error (.slip .endless)
  | fuel + 1, depth, pos =>
      if pos < text.length then do
        let c ← charAt text pos
        if isQuote c then
          match ← literalEnd text pos with
          | some last => semicolonFrom text fuel depth (last + 1)
          | none => return none
        else if (closerOf? c).isSome then semicolonFrom text fuel (depth + 1) (pos + 1)
        else if isCloser c then semicolonFrom text fuel (depth - 1) (pos + 1)
        else if c == ';' && depth ≤ 0 then return some pos
        else semicolonFrom text fuel depth (pos + 1)
      else return none

def blanksFrom (text : List Char) : Nat → Nat → Except Halt Nat
  | 0, _ => .error (.slip .endless)
  | fuel + 1, pos =>
      if pos < text.length then do
        let c ← charAt text pos
        if Text.isBlank c then blanksFrom text fuel (pos + 1) else return pos
      else return pos

/-! # No scan slips -/

section Scans

variable {text rest : List Char} {pos fuel : Nat} {c : Char}

theorem charAt_of_drop (h : text.drop pos = c :: rest) : charAt text pos = .ok c := by
  rw [charAt, getElem?_of_drop h]

theorem end_or_char (text : List Char) (pos : Nat) :
    (¬ pos < text.length ∧ text.drop pos = []) ∨
      ∃ c rest, pos < text.length ∧ text.drop pos = c :: rest := by
  by_cases h : pos < text.length
  · exact .inr ⟨text[pos], text.drop (pos + 1), h, List.drop_eq_getElem_cons h⟩
  · exact .inl ⟨h, List.drop_eq_nil_iff.mpr (Nat.le_of_not_lt h)⟩

theorem map_further (found : Option Nat) (pos n : Nat) :
    found.map (pos + n + ·) = (found.map (· + n)).map (pos + ·) := by
  cases found with
  | none => rfl
  | some m => simp [Nat.add_assoc, Nat.add_comm n]

theorem quoteFrom_eq {mark : Char} (hmark : mark ≠ '\\') (hfuel : text.length - pos < fuel) :
    quoteFrom text mark fuel pos = .ok ((bodyLength? mark (text.drop pos)).map (pos + ·)) := by
  induction fuel generalizing pos with
  | zero => cases hfuel
  | succ fuel ih =>
      rw [quoteFrom]
      rcases end_or_char text pos with ⟨hend, hdrop⟩ | ⟨c, rest, hinside, hdrop⟩
      · rw [if_neg hend, hdrop]
        rfl
      · rw [if_pos hinside, charAt_of_drop hdrop, hdrop, bodyLength?.eq_def]
        have hrest := drop_succ_of_drop hdrop
        change (if c == '\\' then _ else _) = _
        dsimp only
        -- The scan by positions asks for a backslash first. A quote is none, so it does not matter.
        by_cases hslash : (c == '\\') = true
        · have hother : ¬ (c == mark) = true := by
            rw [beq_iff_eq] at hslash ⊢
            exact fun hsame => hmark (hsame.symm.trans hslash)
          rw [if_pos hslash, if_neg hother, if_pos hslash, ih (by omega)]
          cases rest with
          | nil =>
              have hbehind : text.drop (pos + 2) = [] := by
                rw [← List.drop_drop, hdrop]
                rfl
              rw [hbehind]
              rfl
          | cons d after =>
              have hbehind : text.drop (pos + 2) = after := drop_succ_of_drop hrest
              rw [hbehind, map_further]
        · rw [if_neg hslash, if_neg hslash]
          by_cases hquote : (c == mark) = true
          · rw [if_pos hquote, if_pos hquote]
            rfl
          · rw [if_neg hquote, if_neg hquote, ih (by omega), hrest, map_further]

theorem literalEnd_eq (hquote : isQuote c = true) (hdrop : text.drop pos = c :: rest) :
    literalEnd text pos = .ok ((bodyLength? c rest).map (pos + 1 + ·)) := by
  have hmark := Grammar.ne_slash_of_isQuote hquote
  rw [literalEnd, charAt_of_drop hdrop]
  change quoteFrom text c (text.length + 1) (pos + 1) = _
  rw [quoteFrom_eq hmark (by omega), drop_succ_of_drop hdrop]

theorem succ_le_length_of_bodyLength? {n : Nat} (h : bodyLength? c rest = some n) :
    n + 1 ≤ rest.length := by
  rcases Grammar.exists_of_bodyLength? h with ⟨body, after, rfl, -, rfl⟩
  simp

theorem drop_literal (hdrop : text.drop pos = c :: rest) (n : Nat) :
    text.drop (pos + 1 + n + 1) = rest.drop (n + 1) := by
  rw [← drop_succ_of_drop hdrop, List.drop_drop, Nat.add_assoc (pos + 1)]

theorem balancedLength_drop {directive : String} {top : Char} {below cs : List Char} {skip : Nat}
    (h : skip ≤ cs.length) :
    balancedLength directive top below skip cs =
      (balancedLength directive top below 0 (cs.drop skip)).map (· + skip) := by
  have hskip := Grammar.balancedLength_skip directive top below (cs.take skip) (cs.drop skip)
  rwa [List.take_append_drop, List.length_take_of_le h] at hskip

theorem statementLength?_drop {depth : Int} {cs : List Char} {skip : Nat}
    (h : skip ≤ cs.length) :
    statementLength? depth skip cs =
      (statementLength? depth 0 (cs.drop skip)).map (· + skip) := by
  have hskip := Grammar.statementLength?_skip depth (cs.take skip) (cs.drop skip)
  rwa [List.take_append_drop, List.length_take_of_le h] at hskip

theorem unslipped_further (found : Except StructureFault Nat) (pos n : Nat) :
    Halt.unslipped (found.map (pos + n + ·)) =
      Halt.unslipped ((found.map (· + n)).map (pos + ·)) := by
  cases found with
  | error e => rfl
  | ok m => simp [Except.map, Nat.add_assoc, Nat.add_comm n]

theorem bracketFrom_eq {directive : String} {top : Char} {below : List Char}
    (hfuel : text.length - pos < fuel) :
    bracketFrom text directive fuel (top :: below) pos =
      Halt.unslipped ((balancedLength directive top below 0 (text.drop pos)).map (pos + ·)) := by
  induction fuel generalizing top below pos with
  | zero => cases hfuel
  | succ fuel ih =>
      rw [bracketFrom]
      rcases end_or_char text pos with ⟨hend, hdrop⟩ | ⟨c, rest, hinside, hdrop⟩
      · rw [if_neg hend, hdrop]
        rfl
      · have hrest := drop_succ_of_drop hdrop
        have hnext (top : Char) (below : List Char) :
            bracketFrom text directive fuel (top :: below) (pos + 1) =
              Halt.unslipped (((balancedLength directive top below 0 rest).map (· + 1)).map
                (pos + ·)) := by
          rw [ih (by omega), hrest, unslipped_further]
        rw [if_pos hinside, charAt_of_drop hdrop, hdrop, balancedLength.eq_def, Grammar.bind_ok]
        dsimp only
        by_cases hquote : isQuote c = true
        · rw [if_pos hquote, if_pos hquote, literalEnd_eq hquote hdrop, Grammar.bind_ok]
          cases hbody : bodyLength? c rest with
          | none => rfl
          | some n =>
              have hlength := succ_le_length_of_bodyLength? hbody
              have hsum : pos + 1 + n + 1 = pos + (n + 1 + 1) := by omega
              change bracketFrom text directive fuel (top :: below) (pos + 1 + n + 1) = _
              dsimp only
              rw [ih (by omega), drop_literal hdrop, balancedLength_drop hlength, hsum,
                unslipped_further,
                Grammar.except_map_map]
        · rw [if_neg hquote, if_neg hquote]
          cases hopener : closerOf? c with
          | some closer => exact hnext closer (top :: below)
          | none =>
              dsimp only
              by_cases hcloser : isCloser c = true
              · rw [if_pos hcloser, if_pos hcloser]
                change (if (c == top) = true then _ else _) = _
                by_cases htop : (c == top) = true
                · rw [if_pos htop, if_pos htop]
                  cases below with
                  | nil => rfl
                  | cons next others => exact hnext next others
                · rw [if_neg htop, if_neg htop]
                  rfl
              · rw [if_neg hcloser, if_neg hcloser]
                exact hnext top below

theorem bracketEnd_eq {directive : String} {opener closer : Char}
    (hpair : closerOf? opener = some closer) (hdrop : text.drop pos = opener :: rest) :
    bracketEnd text directive pos =
      Halt.unslipped ((balancedLength directive closer [] 0 rest).map (pos + 1 + ·)) := by
  have hcloser : closerAt text pos = .ok closer := by
    rw [closerAt, charAt_of_drop hdrop, Grammar.bind_ok, hpair]
    rfl
  rw [bracketEnd, hcloser, Grammar.bind_ok, bracketFrom_eq (by omega), drop_succ_of_drop hdrop]

theorem semicolonFrom_eq {depth : Int} (hfuel : text.length - pos < fuel) :
    semicolonFrom text fuel depth pos =
      .ok ((statementLength? depth 0 (text.drop pos)).map (pos + ·)) := by
  induction fuel generalizing depth pos with
  | zero => cases hfuel
  | succ fuel ih =>
      rw [semicolonFrom]
      rcases end_or_char text pos with ⟨hend, hdrop⟩ | ⟨c, rest, hinside, hdrop⟩
      · rw [if_neg hend, hdrop]
        rfl
      · have hrest := drop_succ_of_drop hdrop
        have hnext (depth : Int) : semicolonFrom text fuel depth (pos + 1) =
            .ok (((statementLength? depth 0 rest).map (· + 1)).map (pos + ·)) := by
          rw [ih (by omega), hrest, map_further]
        rw [if_pos hinside, charAt_of_drop hdrop, hdrop, statementLength?.eq_def, Grammar.bind_ok]
        dsimp only
        by_cases hquote : isQuote c = true
        · rw [if_pos hquote, if_pos hquote, literalEnd_eq hquote hdrop, Grammar.bind_ok]
          cases hbody : bodyLength? c rest with
          | none => rfl
          | some n =>
              have hlength := succ_le_length_of_bodyLength? hbody
              have hsum : pos + 1 + n + 1 = pos + (n + 1 + 1) := by omega
              change semicolonFrom text fuel depth (pos + 1 + n + 1) = _
              dsimp only
              rw [ih (by omega), drop_literal hdrop, statementLength?_drop hlength, hsum,
                map_further,
                Grammar.option_map_map]
        · rw [if_neg hquote, if_neg hquote]
          by_cases hopener : (closerOf? c).isSome = true
          · rw [if_pos hopener, if_pos hopener, hnext]
          · rw [if_neg hopener, if_neg hopener]
            by_cases hcloser : isCloser c = true
            · rw [if_pos hcloser, if_pos hcloser, hnext]
            · rw [if_neg hcloser, if_neg hcloser]
              by_cases hend : (c == ';' && decide (depth ≤ 0)) = true
              · rw [if_pos hend, if_pos hend]
                rfl
              · rw [if_neg hend, if_neg hend, hnext]

theorem blanksFrom_eq (hfuel : text.length - pos < fuel) :
    blanksFrom text fuel pos = .ok (pos + blankLength (text.drop pos)) := by
  induction fuel generalizing pos with
  | zero => cases hfuel
  | succ fuel ih =>
      rw [blanksFrom]
      rcases end_or_char text pos with ⟨hend, hdrop⟩ | ⟨c, rest, hinside, hdrop⟩
      · rw [if_neg hend, hdrop]
        rfl
      · rw [if_pos hinside, charAt_of_drop hdrop, Grammar.bind_ok, hdrop]
        by_cases hblank : Text.isBlank c = true
        · rw [if_pos hblank, ih (by omega), drop_succ_of_drop hdrop]
          simp [blankLength, hblank, Nat.add_assoc, Nat.add_comm 1]
        · rw [if_neg hblank]
          simp [blankLength, hblank]
          rfl

end Scans

end Positions
end Stencil
