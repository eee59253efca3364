import Stencil.Proofs.View.References

/-!
# Lines

Lines are counted from one. Every piece of a text stands on such a line, so do the nodes that are
built from the pieces, and a fault is found on the line of a piece.
-/

namespace Stencil

/-! # Lines of pieces -/

namespace Piece

def line : Piece → Nat
  | text n _ => n
  | directive n _ _ => n
  | fault n _ => n

theorem le_line_of_mem_pushText {first line : Nat} {c : Char} {pieces : List Piece}
    (hline : first ≤ line) (h : ∀ piece ∈ pieces, first ≤ piece.line) :
    ∀ piece ∈ pushText line c pieces, first ≤ piece.line := by
  intro piece hpiece
  unfold pushText at hpiece
  split at hpiece
  · rcases List.mem_cons.mp hpiece with rfl | hpiece
    · exact hline
    · exact h piece (List.mem_cons_of_mem _ hpiece)
  · rcases List.mem_cons.mp hpiece with rfl | hpiece
    · exact hline
    · exact h piece hpiece

theorem le_nextLine (line : Nat) (c : Char) : line ≤ nextLine line c := by
  unfold nextLine
  split <;> omega

theorem le_line_of_mem_piecesFrom (line skip : Nat) (cs : List Char) :
    ∀ piece ∈ piecesFrom line skip cs, line ≤ piece.line := by
  induction line, skip, cs using piecesFrom.induct with
  | case1 line skip =>
      intro piece hpiece
      simp [piecesFrom] at hpiece
  | case2 line skip c rest ih =>
      rw [piecesFrom]
      intro piece hpiece
      exact (le_nextLine line c).trans (ih piece hpiece)
  | case3 line c rest hat meaning n hread ih =>
      rw [piecesFrom, if_pos hat, hread]
      intro piece hpiece
      rcases List.mem_cons.mp hpiece with rfl | hpiece
      · exact Nat.le_refl line
      · exact ih piece hpiece
  | case4 line c rest hat e hread =>
      rw [piecesFrom, if_pos hat, hread]
      intro piece hpiece
      cases List.mem_singleton.mp hpiece
      exact Nat.le_refl line
  | case5 line c rest hat hread ih =>
      rw [piecesFrom, if_pos hat, hread]
      exact le_line_of_mem_pushText (Nat.le_refl line) ih
  | case6 line c rest hat ih =>
      rw [piecesFrom, if_neg hat]
      exact le_line_of_mem_pushText (Nat.le_refl line) fun piece hpiece =>
        (le_nextLine line c).trans (ih piece hpiece)

end Piece

/-! # Lines of events -/

def BlockEvent.line? : BlockEvent → Option Nat
  | leaf line _ => some line
  | openIf line _ => some line
  | elif line _ => some line
  | otherwise => none
  | openEach line _ _ _ => some line
  | close => none

theorem Piece.line_of_event? {piece : Piece} {event : BlockEvent} {line : Nat}
    (hevent : piece.event? = some event) (hline : event.line? = some line) :
    piece.line = line := by
  cases piece with
  | text n s =>
      cases hevent
      exact Option.some.inj hline
  | directive n s meaning =>
      cases hevent
      cases meaning <;> first | exact Option.some.inj hline | cases hline
  | fault n fault => cases hevent

/-! # Lines of nodes -/

namespace Node

def HasLine (events : List BlockEvent) (line : Nat) : Prop :=
  ∃ event ∈ events, event.line? = some line

theorem hasLine_append {events more : List BlockEvent} {line : Nat} :
    HasLine (events ++ more) line ↔ HasLine events line ∨ HasLine more line := by
  simp only [HasLine, List.mem_append, or_and_right, exists_or]

theorem hasLine_cons {event : BlockEvent} {events : List BlockEvent} {line : Nat} :
    HasLine (event :: events) line ↔ event.line? = some line ∨ HasLine events line := by
  simp [HasLine]

theorem hasLine_armEvents {line : Nat} (branches : List (Branch Node)) :
    HasLine (armEvents line branches) line := by
  cases branches with
  | nil => exact hasLine_cons.mpr (.inl rfl)
  | cons first others => exact hasLine_cons.mpr (.inl rfl)

theorem hasLine_events (node : Node) : HasLine node.events node.line := by
  cases node with
  | conditional line branches otherwise =>
      rw [events_conditional]
      exact hasLine_append.mpr (.inl (hasLine_armEvents branches))
  | _ => exact hasLine_cons.mpr (.inl rfl)

end Node

/-! # Views -/

theorem OpenBlock.hasLine_events (block : OpenBlock) : Node.HasLine block.events block.line := by
  cases block with
  | arm line before done condition conditionLine =>
      exact Node.hasLine_append.mpr (.inr (Node.hasLine_armEvents _))
  | otherwise line before done =>
      refine Node.hasLine_append.mpr (.inl ?_)
      exact Node.hasLine_append.mpr (.inr (Node.hasLine_armEvents _))
  | loop line before item index collection =>
      exact Node.hasLine_append.mpr (.inr (Node.hasLine_cons.mpr (.inl rfl)))

theorem Builder.line_of_addPiece {b : Builder} {piece : Piece} {e : StructureError}
    (h : b.addPiece piece = .error e) : e.line = piece.line := by
  cases piece with
  | text line s => cases h
  | directive line s meaning =>
      simp only [Builder.addPiece] at h
      split at h
      · cases h
      · cases h
        rfl
  | fault line fault =>
      cases h
      rfl

theorem Builder.line_of_foldlM {b : Builder} {pieces : List Piece} {e : StructureError}
    (h : pieces.foldlM Builder.addPiece b = .error e) : ∃ piece ∈ pieces, e.line = piece.line := by
  induction pieces generalizing b with
  | nil => cases h
  | cons piece rest ih =>
      rw [List.foldlM_cons] at h
      cases hstep : b.addPiece piece with
      | error found =>
          rw [hstep] at h
          cases h
          exact ⟨piece, List.mem_cons_self, line_of_addPiece hstep⟩
      | ok next =>
          rw [hstep] at h
          rcases ih h with ⟨other, hother, hline⟩
          exact ⟨other, List.mem_cons_of_mem _ hother, hline⟩

namespace View

theorem exists_piece_of_hasLine {pieces : List Piece} {line : Nat}
    (h : Node.HasLine (pieces.filterMap Piece.event?) line) :
    ∃ piece ∈ pieces, piece.line = line := by
  rcases h with ⟨event, hevent, hline⟩
  rcases List.mem_filterMap.mp hevent with ⟨piece, hpiece, hfound⟩
  exact ⟨piece, hpiece, Piece.line_of_event? hfound hline⟩

theorem exists_piece_of_foldlM {pieces : List Piece} {last : Builder} {line : Nat}
    (h : pieces.foldlM Builder.addPiece Builder.empty = .ok last)
    (hline : Node.HasLine last.events line) : ∃ piece ∈ pieces, piece.line = line := by
  have hwell := Builder.isWellFormed_of_foldlM h
  have hevents := Builder.events_foldlM ((Builder.foldlM_addPiece_eq_ok_iff hwell).mp h)
  rw [hevents] at hline
  exact exists_piece_of_hasLine hline

variable {text : String}

theorem line_pos_of_error {e : StructureError} (h : parse text = .error e) : 0 < e.line := by
  have hpieces : ∃ piece ∈ Piece.ofText text.toList, piece.line = e.line := by
    cases hfold : (Piece.ofText text.toList).foldlM Builder.addPiece Builder.empty with
    | error found =>
        rw [parse, hfold] at h
        cases h
        rcases Builder.line_of_foldlM hfold with ⟨piece, hpiece, hline⟩
        exact ⟨piece, hpiece, hline.symm⟩
    | ok last =>
        rw [parse, hfold] at h
        change last.result = .error e at h
        unfold Builder.result at h
        split at h
        · cases h
        next block outer hblocks =>
            cases h
            apply exists_piece_of_foldlM hfold
            rcases block.hasLine_events with ⟨event, hevent, hline⟩
            refine ⟨event, List.mem_append_left _ ?_, hline⟩
            rw [hblocks]
            exact List.mem_flatMap.mpr ⟨block, by simp, hevent⟩
  rcases hpieces with ⟨piece, hpiece, hline⟩
  have := Piece.le_line_of_mem_piecesFrom 1 0 text.toList piece hpiece
  omega

theorem line_pos_of_parse {nodes : List Node} (h : parse text = .ok nodes) :
    ∀ node ∈ Node.walkAll nodes, 0 < node.line := by
  intro node hnode
  rcases Node.hasLine_events node with ⟨event, hevent, hline⟩
  have hmem := Node.events_subset_of_mem_walkAll nodes hnode hevent
  rw [eventsAll_of_parse h] at hmem
  rcases exists_piece_of_hasLine ⟨event, hmem, hline⟩ with ⟨piece, hpiece, heq⟩
  have := Piece.le_line_of_mem_piecesFrom 1 0 text.toList piece hpiece
  omega

end View
end Stencil
