import Stencil.Proofs.View.Extent
import Stencil.Proofs.View.References

/-!
# Where the pieces of a text lie

The text of a view is taken apart from left to right. Directives lie behind one another, and what
lies between two of them is literal text, one piece of it and none if nothing lies there. So the
texts of a view, read off its nodes from first to last, are the gaps between the directives.
-/

namespace Stencil

/-! # Offsets -/

def lineAt (text : List Char) (offset : Nat) : Nat :=
  1 + (text.take offset).count '\n'

def slice (text : List Char) (start stop : Nat) : List Char :=
  (text.drop start).take (stop - start)

section Offsets

variable {text rest : List Char} {start stop : Nat} {c : Char}

theorem drop_succ_of_drop (h : text.drop start = c :: rest) : text.drop (start + 1) = rest := by
  rw [← List.drop_drop, h]
  rfl

theorem getElem?_of_drop (h : text.drop start = c :: rest) : text[start]? = some c := by
  rw [← List.head?_drop, h]
  rfl

theorem lineAt_succ (h : text[start]? = some c) :
    lineAt text (start + 1) = Piece.nextLine (lineAt text start) c := by
  rw [lineAt, List.take_add_one, h, List.count_append, Piece.nextLine, lineAt]
  by_cases hc : c = '\n'
  · simp [hc, Nat.add_assoc]
  · simp [hc]

theorem slice_self : slice text start start = [] := by
  rw [slice, Nat.sub_self, List.take_zero]

theorem slice_cons (h : text[start]? = some c) (hstop : start < stop) :
    slice text start stop = c :: slice text (start + 1) stop := by
  rcases List.getElem?_eq_some_iff.mp h with ⟨hlength, rfl⟩
  have hcount : stop - start = (stop - (start + 1)) + 1 := by omega
  rw [slice, List.drop_eq_getElem_cons hlength, hcount, List.take_succ_cons, slice]

theorem slice_ne_nil (hstart : start < stop) (hstop : stop ≤ text.length) :
    slice text start stop ≠ [] := by
  have hlength : (slice text start stop).length = stop - start := by
    rw [slice, List.length_take, List.length_drop]
    omega
  intro hnil
  rw [hnil, List.length_nil] at hlength
  omega

theorem slice_append {middle : Nat} (hfirst : start ≤ middle) (hsecond : middle ≤ stop) :
    slice text start middle ++ slice text middle stop = slice text start stop := by
  have hcount : stop - start = (middle - start) + (stop - middle) := by omega
  rw [slice, slice, slice, hcount, List.take_add, List.drop_drop, Nat.add_sub_cancel' hfirst]

theorem slice_of_drop (h : text.drop start = rest) (n : Nat) :
    slice text start (start + n) = rest.take n := by
  rw [slice, h, Nat.add_sub_cancel_left]

end Offsets

/-! # Pieces at their offsets -/

structure Stands (text : List Char) (start : Nat) (meaning : Directive) (stop : Nat) : Prop where
  sign : text[start]? = some '@'
  ahead : start < stop
  inside : stop ≤ text.length
  read : Directive.read? (text.drop (start + 1)) = some (.ok (meaning, stop - (start + 1)))

structure Stumbles (text : List Char) (start : Nat) (fault : StructureFault) : Prop where
  sign : text[start]? = some '@'
  read : Directive.read? (text.drop (start + 1)) = some (.error fault)

structure Begins (text : List Char) (start : Nat) : Prop where
  sign : text[start]? = some '@'
  read : Directive.read? (text.drop (start + 1)) ≠ none

def IsLiteral (text : List Char) (start stop : Nat) : Prop :=
  ∀ i, start ≤ i → i < stop → ¬ Begins text i

section Signs

variable {text : List Char} {start middle stop : Nat}

theorem lt_length_of_sign (h : text[start]? = some '@') : start < text.length :=
  (List.getElem?_eq_some_iff.mp h).1

theorem stands_of_read? {meaning : Directive} {n : Nat} (hsign : text[start]? = some '@')
    (hread : Directive.read? (text.drop (start + 1)) = some (.ok (meaning, n))) :
    Stands text start meaning (start + 1 + n) where
  sign := hsign
  ahead := by omega
  inside := by
    rcases Directive.occurs_of_read? hread with ⟨w, after, hsplit, rfl, -⟩
    have hlength := congrArg List.length hsplit
    rw [List.length_drop, List.length_append] at hlength
    have := lt_length_of_sign hsign
    omega
  read := by rw [hread, Nat.add_sub_cancel_left]

theorem Stands.begins {meaning : Directive} (h : Stands text start meaning stop) :
    Begins text start :=
  ⟨h.sign, by simp [h.read]⟩

theorem Stumbles.begins {fault : StructureFault} (h : Stumbles text start fault) :
    Begins text start :=
  ⟨h.sign, by simp [h.read]⟩

theorem Stands.agrees {meaning other : Directive} {last : Nat}
    (h : Stands text start meaning stop) (hother : Stands text start other last) :
    meaning = other ∧ stop = last := by
  have hread := h.read.symm.trans hother.read
  simp only [Option.some.injEq, Except.ok.injEq, Prod.mk.injEq] at hread
  rcases hread with ⟨hmeaning, hlength⟩
  have hahead := h.ahead
  have hbehind := hother.ahead
  exact ⟨hmeaning, by omega⟩

theorem IsLiteral.single (h : ¬ Begins text start) : IsLiteral text start (start + 1) := by
  intro i hstart hstop
  rw [Nat.le_antisymm (Nat.le_of_lt_succ hstop) hstart]
  exact h

theorem IsLiteral.append (hfirst : IsLiteral text start middle)
    (hsecond : IsLiteral text middle stop) : IsLiteral text start stop := by
  intro i hstart hstop
  by_cases hi : i < middle
  · exact hfirst i hstart hi
  · exact hsecond i (Nat.le_of_not_lt hi) hstop

theorem Begins.not_isLiteral (h : Begins text start) (hahead : start < stop) :
    ¬ IsLiteral text start stop :=
  fun hliteral => hliteral start (Nat.le_refl start) hahead h

end Signs

def Piece.isText : Piece → Bool
  | text _ _ => true
  | _ => false

/-- What is left of a text from an offset on falls into some pieces. -/
inductive Laid (text : List Char) : Nat → List Piece → Prop where
  | done {start : Nat} : start = text.length → Laid text start []
  | text {start stop : Nat} {pieces : List Piece} :
      start < stop → stop ≤ text.length → IsLiteral text start stop →
      (∀ piece ∈ pieces.head?, piece.isText = false) → Laid text stop pieces →
      Laid text start (.text (lineAt text start) (slice text start stop) :: pieces)
  | directive {start stop : Nat} {meaning : Directive} {pieces : List Piece} :
      Stands text start meaning stop → Laid text stop pieces →
      Laid text start (.directive (lineAt text start) (slice text start stop) meaning :: pieces)
  | fault {start : Nat} {fault : StructureFault} :
      Stumbles text start fault → Laid text start [.fault (lineAt text start) fault]

namespace Laid

variable {text : List Char} {start : Nat} {pieces : List Piece} {c : Char}

theorem ends (hlaid : Laid text start pieces)
    (hhead : ∀ piece ∈ pieces.head?, piece.isText = false) :
    start = text.length ∨ Begins text start := by
  cases hlaid with
  | done hend => exact .inl hend
  | text => cases hhead _ rfl
  | directive hstands => exact .inr hstands.begins
  | fault hstumbles => exact .inr hstumbles.begins

theorem pushText (hchar : text[start]? = some c) (hliteral : ¬ Begins text start)
    (h : Laid text (start + 1) pieces) :
    Laid text start (Piece.pushText (lineAt text start) c pieces) := by
  have hinside : start + 1 ≤ text.length := (List.getElem?_eq_some_iff.mp hchar).1
  have hhere : IsLiteral text start (start + 1) := .single hliteral
  have halone (hhead : ∀ piece ∈ pieces.head?, piece.isText = false) :
      Laid text start (.text (lineAt text start) [c] :: pieces) := by
    have hslice : slice text start (start + 1) = [c] := by
      rw [slice_cons hchar (Nat.lt_succ_self start), slice_self]
    rw [← hslice]
    exact .text (Nat.lt_succ_self start) hinside hhere hhead h
  cases h with
  | done hend => exact halone (by simp)
  | text hahead hstop hrun hhead hrest =>
      rw [Piece.pushText, ← slice_cons hchar (Nat.lt_of_succ_lt hahead)]
      exact .text (Nat.lt_of_succ_lt hahead) hstop (hhere.append hrun) hhead hrest
  | directive hstands hrest => exact halone (by simp [Piece.isText])
  | fault hstumbles => exact halone (by simp [Piece.isText])

theorem piecesFrom (line skip : Nat) (cs : List Char) :
    ∀ offset, text.drop offset = cs → offset + skip ≤ text.length → line = lineAt text offset →
      Laid text (offset + skip) (Piece.piecesFrom line skip cs) := by
  -- The offset moves on with the scan, so it is left open in the induction.
  induction line, skip, cs using Piece.piecesFrom.induct with
  | case1 line skip =>
      intro offset hdrop hinside hline
      have hend : offset + skip = text.length := by
        have := List.drop_eq_nil_iff.mp hdrop
        omega
      rw [Piece.piecesFrom]
      exact .done hend
  | case2 line skip c rest ih =>
      intro offset hdrop hinside hline
      have hsum : offset + skip.succ = offset + 1 + skip := by omega
      rw [Piece.piecesFrom, hsum]
      apply ih (offset + 1) (drop_succ_of_drop hdrop) (by omega)
      rw [lineAt_succ (getElem?_of_drop hdrop), hline]
  | case3 line c rest hat meaning n hread ih =>
      intro offset hdrop hinside hline
      have hchar := getElem?_of_drop hdrop
      have hrest := drop_succ_of_drop hdrop
      cases beq_iff_eq.mp hat
      have hlines : lineAt text (offset + 1) = line := by
        rw [lineAt_succ hchar, hline]
        rfl
      have hstands : Stands text offset meaning (offset + 1 + n) :=
        stands_of_read? hchar (hrest ▸ hread)
      have hslice : '@' :: rest.take n = slice text offset (offset + 1 + n) := by
        rw [slice_cons hchar hstands.ahead, slice_of_drop hrest]
      rw [Piece.piecesFrom, if_pos hat, hread]
      dsimp only
      rw [hslice, hline]
      refine .directive hstands ?_
      rw [← hline]
      exact ih (offset + 1) hrest hstands.inside hlines.symm
  | case4 line c rest hat e hread =>
      intro offset hdrop hinside hline
      have hchar := getElem?_of_drop hdrop
      cases beq_iff_eq.mp hat
      rw [Piece.piecesFrom, if_pos hat, hread, hline]
      refine .fault ⟨hchar, ?_⟩
      rw [Nat.add_zero, drop_succ_of_drop hdrop, hread]
  | case5 line c rest hat hread ih =>
      intro offset hdrop hinside hline
      have hchar := getElem?_of_drop hdrop
      have hrest := drop_succ_of_drop hdrop
      cases beq_iff_eq.mp hat
      have hfits := (List.getElem?_eq_some_iff.mp hchar).1
      have hlines : line = lineAt text (offset + 1) := by
        rw [lineAt_succ hchar, hline]
        rfl
      rw [Piece.piecesFrom, if_pos hat, hread, hline]
      refine pushText hchar (fun hbegins => hbegins.read (hrest ▸ hread)) ?_
      rw [← hline]
      exact ih (offset + 1) hrest hfits hlines
  | case6 line c rest hat ih =>
      intro offset hdrop hinside hline
      have hchar := getElem?_of_drop hdrop
      have hfits := (List.getElem?_eq_some_iff.mp hchar).1
      have hother : ¬ Begins text offset := by
        intro hbegins
        cases Option.some.inj (hchar.symm.trans hbegins.sign)
        exact hat rfl
      rw [Piece.piecesFrom, if_neg hat, hline]
      refine pushText hchar hother ?_
      rw [← hline]
      apply ih (offset + 1) (drop_succ_of_drop hdrop) hfits
      rw [lineAt_succ hchar, hline]

theorem ofText (text : List Char) : Laid text 0 (Piece.ofText text) :=
  piecesFrom 1 0 text 0 rfl (Nat.zero_le _) rfl

theorem stop_le {stop other : Nat} (hinside : other ≤ text.length)
    (hliteral : IsLiteral text start other) (hahead : start < stop)
    (hhead : ∀ piece ∈ pieces.head?, piece.isText = false) (h : Laid text stop pieces) :
    other ≤ stop := by
  by_contra hbehind
  have hstop := Nat.lt_of_not_le hbehind
  rcases h.ends hhead with hend | hbegins
  · omega
  · exact hliteral stop (Nat.le_of_lt hahead) hstop hbegins

theorem unique {others : List Piece} (h : Laid text start pieces)
    (hother : Laid text start others) :
    pieces = others := by
  induction h generalizing others with
  | done hend =>
      cases hother with
      | done => rfl
      | text hahead hinside => omega
      | directive hstands => exact absurd (lt_length_of_sign hstands.sign) (by omega)
      | fault hstumbles => exact absurd (lt_length_of_sign hstumbles.sign) (by omega)
  | text hahead hinside hliteral hhead hrest ih =>
      cases hother with
      | done hend => omega
      | text hahead' hinside' hliteral' hhead' hrest' =>
          -- Neither run goes on past the end of the other: what comes next there is no text.
          have hstop := Nat.le_antisymm (hrest'.stop_le hinside hliteral hahead' hhead')
            (hrest.stop_le hinside' hliteral' hahead hhead)
          subst hstop
          rw [ih hrest']
      | directive hstands => exact absurd hliteral (hstands.begins.not_isLiteral hahead)
      | fault hstumbles => exact absurd hliteral (hstumbles.begins.not_isLiteral hahead)
  | directive hstands hrest ih =>
      cases hother with
      | done hend => exact absurd (lt_length_of_sign hstands.sign) (by omega)
      | text hahead _ hliteral => exact absurd hliteral (hstands.begins.not_isLiteral hahead)
      | directive hstands' hrest' =>
          rcases hstands.agrees hstands' with ⟨rfl, rfl⟩
          rw [ih hrest']
      | fault hstumbles => cases hstands.read.symm.trans hstumbles.read
  | fault hstumbles =>
      cases hother with
      | done hend => exact absurd (lt_length_of_sign hstumbles.sign) (by omega)
      | text hahead _ hliteral => exact absurd hliteral (hstumbles.begins.not_isLiteral hahead)
      | directive hstands => cases hstumbles.read.symm.trans hstands.read
      | fault hstumbles' =>
          cases hstumbles.read.symm.trans hstumbles'.read
          rfl

end Laid

/-! # Stretches and gaps -/

structure Stretch where
  start : Nat
  stop : Nat
deriving DecidableEq, Repr

def Ascending (last : Nat) : Nat → List Stretch → Prop
  | offset, [] => offset ≤ last
  | offset, s :: rest => offset ≤ s.start ∧ s.start < s.stop ∧ Ascending last s.stop rest

/-- What lies between stretches, from an offset on, in front of the first and behind the last. -/
def gaps (text : List Char) : Nat → List Stretch → List (List Char)
  | offset, [] => [slice text offset text.length]
  | offset, s :: rest => slice text offset s.start :: gaps text s.stop rest

def Piece.literal? : Piece → Option (List Char)
  | text _ s => some s
  | _ => none

/-- What some pieces are, told by the stretches that their directives take up. -/
structure Leaves (text : List Char) (start : Nat) (pieces : List Piece)
    (directives : List Stretch) : Prop where
  ascending : Ascending text.length start directives
  stands : ∀ s ∈ directives, ∃ meaning, Stands text s.start meaning s.stop
  literals : pieces.filterMap Piece.literal? =
    (gaps text start directives).filter (!List.isEmpty ·)
  silent : ∀ i, start ≤ i → (∀ s ∈ directives, ¬ (s.start ≤ i ∧ i < s.stop)) →
    ¬ Begins text i
  /-- Where no text begins, a directive does, or the text ends. -/
  near : (∀ piece ∈ pieces.head?, piece.isText = false) →
    ((directives.head?.map (·.start)).getD text.length) = start

namespace Leaves

variable {text : List Char} {start stop : Nat} {pieces : List Piece} {directives : List Stretch}

theorem nothing : Leaves text text.length [] [] where
  ascending := Nat.le_refl _
  stands := by simp
  literals := by simp [gaps, slice_self]
  silent i hstart _ hbegins := Nat.not_lt.mpr hstart (lt_length_of_sign hbegins.sign)
  near _ := rfl

theorem gaps_eq (text : List Char) (directives : List Stretch) :
    ∃ later, ∀ offset, gaps text offset directives =
      slice text offset ((directives.head?.map (·.start)).getD text.length) :: later := by
  cases directives with
  | nil => exact ⟨[], fun offset => rfl⟩
  | cons s rest => exact ⟨gaps text s.stop rest, fun offset => rfl⟩

theorem cons_text (hahead : start < stop) (hinside : stop ≤ text.length)
    (hliteral : IsLiteral text start stop)
    (hhead : ∀ piece ∈ pieces.head?, piece.isText = false)
    (h : Leaves text stop pieces directives) (line : Nat) :
    Leaves text start (.text line (slice text start stop) :: pieces) directives where
  ascending := by
    have hascending := h.ascending
    cases directives with
    | nil => exact Nat.le_trans (Nat.le_of_lt hahead) hascending
    | cons s rest => exact ⟨Nat.le_trans (Nat.le_of_lt hahead) hascending.1, hascending.2⟩
  stands := h.stands
  literals := by
    rcases gaps_eq text directives with ⟨later, hgaps⟩
    have hbehind := h.literals
    rw [hgaps, h.near hhead, slice_self, List.filter_cons_of_neg (by simp)] at hbehind
    have hsome : (!(slice text start stop).isEmpty) = true := by
      simpa using slice_ne_nil hahead hinside
    rw [hgaps, h.near hhead, List.filter_cons, if_pos hsome, ← hbehind]
    rfl
  silent i hstart houtside := by
    by_cases hi : i < stop
    · exact hliteral i hstart hi
    · exact h.silent i (Nat.le_of_not_lt hi) houtside
  near hnot := by
    have := hnot _ rfl
    cases this

theorem cons_directive {meaning : Directive} (hstands : Stands text start meaning stop)
    (h : Leaves text stop pieces directives) (line : Nat) (source : List Char) :
    Leaves text start (.directive line source meaning :: pieces) (⟨start, stop⟩ :: directives) where
  ascending := ⟨Nat.le_refl _, hstands.ahead, h.ascending⟩
  stands := List.forall_mem_cons.mpr ⟨⟨meaning, hstands⟩, h.stands⟩
  literals := by
    rw [gaps, slice_self, List.filter_cons_of_neg (by simp), ← h.literals]
    rfl
  silent i hstart houtside := by
    rcases List.forall_mem_cons.mp houtside with ⟨hfirst, hothers⟩
    apply h.silent i _ hothers
    by_contra hstop
    exact hfirst ⟨hstart, Nat.lt_of_not_le hstop⟩
  near _ := rfl

end Leaves

theorem Laid.exists_leaves {text : List Char} {start : Nat} {pieces : List Piece}
    (h : Laid text start pieces) (hwell : ∀ piece ∈ pieces, piece.IsWellFormed) :
    ∃ directives, Leaves text start pieces directives := by
  induction h with
  | done hend => exact ⟨[], hend ▸ .nothing⟩
  | text hahead hinside hliteral hhead hrest ih =>
      rcases ih (List.forall_mem_cons.mp hwell).2 with ⟨directives, hleaves⟩
      exact ⟨directives, hleaves.cons_text hahead hinside hliteral hhead _⟩
  | directive hstands hrest ih =>
      rcases ih (List.forall_mem_cons.mp hwell).2 with ⟨directives, hleaves⟩
      exact ⟨_, hleaves.cons_directive hstands _ _⟩
  | fault hstumbles =>
      rcases hwell _ List.mem_cons_self with ⟨event, hevent, -⟩
      cases hevent

/-! # The texts of a view -/

namespace Node

def literal? : Node → Option String
  | text _ t => some t
  | _ => none

def literals (nodes : List Node) : List String :=
  (walkAll nodes).filterMap literal?

end Node

def BlockEvent.literal? : BlockEvent → Option String
  | leaf _ (.text t) => some t
  | _ => none

namespace Node

mutual

theorem literals_walk :
    (node : Node) → node.walk.filterMap literal? = node.events.filterMap BlockEvent.literal?
  | .text _ _ => rfl
  | .interpolation _ _ => rfl
  | .shorthand _ _ => rfl
  | .declaration _ _ _ => rfl
  | .inclusion _ _ _ => rfl
  | .conditional line branches otherwise => by
      have hbranches := literals_walkBranches line branches
      cases otherwise with
      | none => simp [walk_conditional, events_conditional, literal?, hbranches, walkAll,
          BlockEvent.literal?, List.filterMap_cons]
      | some body => simp [walk_conditional, events_conditional, literal?, hbranches,
          literals_walkAll body, BlockEvent.literal?, List.filterMap_cons]
  | .loop line item index collection body => by
      simp [walk, events, literal?, literals_walkAll body, BlockEvent.literal?,
        List.filterMap_cons]

theorem literals_walkAll :
    (nodes : List Node) →
      (walkAll nodes).filterMap literal? = (eventsAll nodes).filterMap BlockEvent.literal?
  | [] => rfl
  | node :: rest => by
      simp [walkAll, eventsAll, literals_walk node, literals_walkAll rest]

theorem literals_walkBranches (line : Nat) :
    (branches : List (Branch Node)) →
      (walkBranches branches).filterMap literal? =
        (armEvents line branches).filterMap BlockEvent.literal?
  | [] => rfl
  | first :: others => by
      simp [walkBranches, armEvents, BlockEvent.literal?, List.filterMap_cons,
        literals_walkAll first.body, literals_laterBranches others]

theorem literals_laterBranches :
    (branches : List (Branch Node)) →
      (walkBranches branches).filterMap literal? =
        (laterArmEvents branches).filterMap BlockEvent.literal?
  | [] => rfl
  | branch :: rest => by
      simp [walkBranches, laterArmEvents, BlockEvent.literal?, List.filterMap_cons,
        literals_walkAll branch.body, literals_laterBranches rest]

end

end Node

theorem Piece.literal?_of_event? (pieces : List Piece) :
    (pieces.filterMap Piece.event?).filterMap BlockEvent.literal? =
      (pieces.filterMap Piece.literal?).map String.ofList := by
  induction pieces with
  | nil => rfl
  | cons piece rest ih =>
      cases piece with
      | text line s => simp [Piece.event?, BlockEvent.literal?, Piece.literal?, ih]
      | fault line fault => simpa [List.filterMap_cons, Piece.event?, Piece.literal?] using ih
      | directive line s meaning =>
          have hnone : (BlockEvent.ofDirective line meaning).literal? = none := by
            cases meaning <;> rfl
          simp [List.filterMap_cons, Piece.event?, Piece.literal?, hnone, ih]

namespace View

variable {text : String} {nodes : List Node}

theorem literals_of_parse (h : parse text = .ok nodes) :
    Node.literals nodes =
      ((Piece.ofText text.toList).filterMap Piece.literal?).map String.ofList := by
  rw [Node.literals, Node.literals_walkAll, eventsAll_of_parse h, events,
    Piece.literal?_of_event?]

def IsDirective (text : List Char) (s : Stretch) : Prop :=
  ∃ w, slice text s.start s.stop = '@' :: w ∧ Directive.Occurs w (text.drop s.stop)

theorem isDirective_of_stands {cs : List Char} {start stop : Nat} {meaning : Directive}
    (h : Stands cs start meaning stop) : IsDirective cs ⟨start, stop⟩ := by
  rcases Directive.occurs_of_read? h.read with ⟨w, after, hsplit, hlength, hoccurs⟩
  have hstop : stop = start + 1 + w.length := by
    have := h.ahead
    omega
  refine ⟨w, ?_, ?_⟩
  · rw [slice_cons h.sign h.ahead, slice, hsplit, ← hlength, List.take_left]
  · change Directive.Occurs w (cs.drop stop)
    rw [hstop, ← List.drop_drop, hsplit, List.drop_left]
    exact hoccurs

/--
The directives of a view lie one behind another in its text. Its texts are what lies between
them, each gap once unless it is empty, and no at sign in there begins a directive.
-/
theorem literals_eq_gaps (h : parse text = .ok nodes) :
    ∃ directives : List Stretch,
      Ascending text.toList.length 0 directives ∧
        (∀ s ∈ directives, IsDirective text.toList s) ∧
          Node.literals nodes =
            ((gaps text.toList 0 directives).filter (!List.isEmpty ·)).map String.ofList ∧
            ∀ i, text.toList[i]? = some '@' →
              (∀ s ∈ directives, ¬ (s.start ≤ i ∧ i < s.stop)) →
                ∀ c ∈ text.toList[i + 1]?, c ≠ '\x7b' ∧ isNameStart c = false := by
  have hlaid := Laid.ofText text.toList
  rcases hlaid.exists_leaves (isWellFormed_of_parse h) with ⟨directives, hleaves⟩
  refine ⟨directives, hleaves.ascending, ?_, ?_, ?_⟩
  · intro s hs
    rcases hleaves.stands s hs with ⟨meaning, hstands⟩
    exact isDirective_of_stands hstands
  · rw [literals_of_parse h, hleaves.literals]
  · intro i hsign houtside c hc
    have hnone : Directive.read? (text.toList.drop (i + 1)) = none := by
      by_contra hread
      exact hleaves.silent i (Nat.zero_le i) houtside ⟨hsign, hread⟩
    apply Directive.read?_eq_none_iff.mp hnone
    rw [List.head?_drop]
    exact hc

theorem literals_eq_gaps_mixed :
    (parse "a@@if (x)@ b@else c@end@var y = ';';  d@y.e.").map Node.literals =
        .ok ["a@", "@ b", " c", "d", "."] ∧
      ∃ nodes, parse "a@@if (x)@ b@else c@end@var y = ';';  d@y.e." = .ok nodes ∧
        ∃ directives : List Stretch,
          Ascending "a@@if (x)@ b@else c@end@var y = ';';  d@y.e.".toList.length 0 directives ∧
            Node.literals nodes =
              ((gaps "a@@if (x)@ b@else c@end@var y = ';';  d@y.e.".toList 0 directives).filter
                (!List.isEmpty ·)).map String.ofList := by
  have hliterals : (parse "a@@if (x)@ b@else c@end@var y = ';';  d@y.e.").map Node.literals =
      .ok ["a@", "@ b", " c", "d", "."] := by
    decide +kernel
  rcases map_eq_ok_iff.mp hliterals with ⟨nodes, hparse, -⟩
  rcases literals_eq_gaps hparse with ⟨directives, hascending, -, hgaps, -⟩
  exact ⟨hliterals, nodes, hparse, directives, hascending, hgaps⟩

end View
end Stencil
