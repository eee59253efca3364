import Stencil.Proofs.Outcome
import Stencil.View.Block

/-!
# Where nodes come from

Every node of a view was built from directives that stand in its text. What holds of
all directives that can be read therefore holds of what the nodes of a view are made of,
at any depth.
-/

namespace Stencil

/-- Whether a directive stands in some text. -/
def Directive.IsRead (directive : Directive) : Prop :=
  ∃ cs n, Directive.read? cs = some (.ok (directive, n))

def IsCondition (source : String) : Prop :=
  (Directive.openIf source).IsRead ∨
    (Directive.elif source).IsRead ∧ source.isEmpty = false

namespace Node

def IsRead : Node → Prop
  | text _ _ => True
  | interpolation _ e => (Directive.interpolation e).IsRead
  | shorthand _ path => (Directive.shorthand path).IsRead
  | declaration _ pattern e => (Directive.declaration pattern e).IsRead
  | conditional _ branches _ => ∀ branch ∈ branches, IsCondition branch.condition
  | loop _ item index collection _ => (Directive.openEach item index collection).IsRead
  | inclusion _ path data => (Directive.inclusion path data).IsRead

def AllRead (nodes : List Node) : Prop :=
  ∀ node ∈ walkAll nodes, node.IsRead

/-! # Walks -/

theorem mem_walkAll {node : Node} {nodes : List Node} :
    node ∈ walkAll nodes ↔ ∃ top ∈ nodes, node ∈ top.walk := by
  induction nodes with
  | nil => simp [walkAll]
  | cons first rest ih => simp [walkAll, ih]

theorem mem_walkBranches {node : Node} {branches : List (Branch Node)} :
    node ∈ walkBranches branches ↔ ∃ branch ∈ branches, node ∈ walkAll branch.body := by
  induction branches with
  | nil => simp [walkBranches]
  | cons first rest ih => simp [walkBranches, ih]

theorem mem_walk_conditional {node : Node} {line : Nat} {branches : List (Branch Node)}
    {otherwise : Option (List Node)} :
    node ∈ (conditional line branches otherwise).walk ↔
      node = conditional line branches otherwise ∨
        (∃ branch ∈ branches, node ∈ walkAll branch.body) ∨
          ∃ body ∈ otherwise, node ∈ walkAll body := by
  cases otherwise <;> simp [walk, mem_walkBranches]

theorem mem_walk_loop {node : Node} {line : Nat} {item index collection : String}
    {body : List Node} :
    node ∈ (loop line item index collection body).walk ↔
      node = loop line item index collection body ∨ node ∈ walkAll body := by
  simp [walk]

theorem mem_walk_self (node : Node) : node ∈ node.walk := by
  cases node with
  | conditional line branches otherwise => exact mem_walk_conditional.mpr (.inl rfl)
  | loop line item index collection body => exact mem_walk_loop.mpr (.inl rfl)
  | _ => exact List.mem_singleton.mpr rfl

theorem AllRead.nil : AllRead [] := by
  intro node hnode
  cases hnode

theorem AllRead.cons {node : Node} {nodes : List Node}
    (hnode : ∀ inner ∈ node.walk, inner.IsRead) (hnodes : AllRead nodes) :
    AllRead (node :: nodes) := by
  intro inner hinner
  rcases List.mem_append.mp hinner with hinner | hinner
  · exact hnode inner hinner
  · exact hnodes inner hinner

theorem AllRead.reverse {nodes : List Node} (h : AllRead nodes) : AllRead nodes.reverse := by
  intro node hnode
  rcases mem_walkAll.mp hnode with ⟨top, htop, hnode⟩
  exact h node (mem_walkAll.mpr ⟨top, List.mem_reverse.mp htop, hnode⟩)

end Node

/-! # What is being built -/

structure Branch.AllRead (branch : Branch Node) : Prop where
  condition : IsCondition branch.condition
  body : Node.AllRead branch.body

theorem Node.AllRead.conditional {line : Nat} {branches : List (Branch Node)}
    {otherwise : Option (List Node)} {nodes : List Node}
    (hbranches : ∀ branch ∈ branches, branch.AllRead)
    (hotherwise : ∀ body ∈ otherwise, Node.AllRead body) (hnodes : Node.AllRead nodes) :
    Node.AllRead (.conditional line branches otherwise :: nodes) := by
  refine .cons ?_ hnodes
  intro inner hinner
  rcases Node.mem_walk_conditional.mp hinner with rfl | ⟨branch, hbranch, hinner⟩ |
    ⟨body, hbody, hinner⟩
  · intro branch hbranch
    exact (hbranches branch hbranch).condition
  · exact (hbranches branch hbranch).body inner hinner
  · exact hotherwise body hbody inner hinner

namespace OpenBlock

def AllRead : OpenBlock → Prop
  | arm _ before done condition _ =>
      Node.AllRead before ∧ (∀ branch ∈ done, branch.AllRead) ∧ IsCondition condition
  | otherwise _ before done => Node.AllRead before ∧ ∀ branch ∈ done, branch.AllRead
  | loop _ before item index collection =>
      Node.AllRead before ∧ (Directive.openEach item index collection).IsRead

theorem AllRead.finish {block : OpenBlock} (h : block.AllRead) {body : List Node}
    (hbody : Node.AllRead body) : Node.AllRead (block.finish body) := by
  cases block with
  | arm line before done condition conditionLine =>
      rcases h with ⟨hbefore, hdone, hcondition⟩
      refine .conditional ?_ (by simp) hbefore
      intro branch hbranch
      rcases List.mem_cons.mp (List.mem_reverse.mp hbranch) with rfl | hbranch
      · exact ⟨hcondition, hbody⟩
      · exact hdone branch hbranch
  | otherwise line before done =>
      rcases h with ⟨hbefore, hdone⟩
      refine .conditional ?_ ?_ hbefore
      · intro branch hbranch
        exact hdone branch (List.mem_reverse.mp hbranch)
      · intro other hother
        cases hother
        exact hbody
  | loop line before item index collection =>
      refine .cons ?_ h.1
      intro inner hinner
      rcases Node.mem_walk_loop.mp hinner with rfl | hinner
      · exact h.2
      · exact hbody inner hinner

end OpenBlock

namespace Builder

structure AllRead (b : Builder) : Prop where
  blocks : ∀ block ∈ b.blocks, block.AllRead
  nodes : Node.AllRead b.nodes

theorem AllRead.empty : Builder.empty.AllRead := by
  constructor
  · intro block hblock
    cases hblock
  · exact .nil

theorem AllRead.begin {block : OpenBlock} {outer : List OpenBlock} (hblock : block.AllRead)
    (houter : ∀ other ∈ outer, other.AllRead) : Builder.AllRead ⟨block :: outer, []⟩ := by
  constructor
  · intro other hother
    rcases List.mem_cons.mp hother with rfl | hother
    · exact hblock
    · exact houter other hother
  · exact .nil

section Steps

variable {b next : Builder} (h : b.AllRead)

include h

theorem AllRead.push {node : Node} (hleaf : node.walk = [node]) (hnode : node.IsRead) :
    (b.push node).AllRead := by
  constructor
  · exact h.blocks
  · apply Node.AllRead.cons _ h.nodes
    rw [hleaf]
    simpa using hnode

theorem AllRead.nextArm {line conditionLine : Nat} {before : List Node}
    {done : List (Branch Node)} {condition : String} {outer : List OpenBlock}
    (hblocks : b.blocks = .arm line before done condition conditionLine :: outer) :
    Node.AllRead before ∧
      (∀ branch ∈ ⟨condition, conditionLine, b.nodes.reverse⟩ :: done, branch.AllRead) ∧
        ∀ block ∈ outer, block.AllRead := by
  have hall := h.blocks
  rw [hblocks] at hall
  rcases hall _ List.mem_cons_self with ⟨hbefore, hdone, hcondition⟩
  refine ⟨hbefore, ?_, fun block hblock => hall block (List.mem_cons_of_mem _ hblock)⟩
  intro branch hbranch
  rcases List.mem_cons.mp hbranch with rfl | hbranch
  · exact ⟨hcondition, h.nodes.reverse⟩
  · exact hdone branch hbranch

theorem AllRead.elif {line : Nat} {condition : String}
    (hread : (Directive.elif condition).IsRead) (hnext : b.elif line condition = .ok next) :
    next.AllRead := by
  unfold Builder.elif at hnext
  split at hnext
  next n before done c cl outer hblocks =>
      rcases h.nextArm hblocks with ⟨hbefore, hdone, houter⟩
      cases hempty : condition.isEmpty with
      | true => simp [hempty] at hnext
      | false =>
          simp only [hempty, Bool.false_eq_true, if_false, Except.ok.injEq] at hnext
          subst hnext
          exact .begin ⟨hbefore, hdone, .inr ⟨hread, hempty⟩⟩ houter
  · cases hnext
  · cases hnext

theorem AllRead.otherwise (hnext : b.otherwise = .ok next) : next.AllRead := by
  unfold Builder.otherwise at hnext
  split at hnext
  next n before done c cl outer hblocks =>
      rcases h.nextArm hblocks with ⟨hbefore, hdone, houter⟩
      cases hnext
      exact .begin ⟨hbefore, hdone⟩ houter
  · cases hnext
  · cases hnext
  · cases hnext

theorem AllRead.close (hnext : b.close = .ok next) : next.AllRead := by
  unfold Builder.close at hnext
  split at hnext
  next block outer hblocks =>
      have hall := h.blocks
      rw [hblocks] at hall
      cases hnext
      exact ⟨fun other hother => hall other (List.mem_cons_of_mem _ hother),
        (hall block List.mem_cons_self).finish h.nodes.reverse⟩
  · cases hnext

theorem AllRead.addDirective {line : Nat} {directive : Directive} (hread : directive.IsRead)
    (hnext : b.addDirective line directive = .ok next) : next.AllRead := by
  cases directive with
  | interpolation e => cases hnext; exact h.push rfl hread
  | shorthand path => cases hnext; exact h.push rfl hread
  | declaration pattern e => cases hnext; exact h.push rfl hread
  | inclusion path data => cases hnext; exact h.push rfl hread
  | openIf condition =>
      cases hnext
      exact .begin ⟨h.nodes, by simp, .inl hread⟩ h.blocks
  | openEach item index collection =>
      cases hnext
      exact .begin ⟨h.nodes, hread⟩ h.blocks
  | elif condition => exact h.elif hread hnext
  | otherwise => exact h.otherwise hnext
  | close => exact h.close hnext

end Steps

end Builder

/-! # Views -/

def Piece.IsRead : Piece → Prop
  | directive _ _ meaning => meaning.IsRead
  | _ => True

theorem Piece.isRead_of_mem_pushText {line : Nat} {c : Char} {pieces : List Piece}
    (h : ∀ piece ∈ pieces, piece.IsRead) :
    ∀ piece ∈ pushText line c pieces, piece.IsRead := by
  intro piece hpiece
  unfold pushText at hpiece
  split at hpiece
  next n s rest =>
      rcases List.mem_cons.mp hpiece with rfl | hpiece
      · trivial
      · exact h piece (List.mem_cons_of_mem _ hpiece)
  next =>
      rcases List.mem_cons.mp hpiece with rfl | hpiece
      · trivial
      · exact h piece hpiece

theorem Piece.isRead_of_mem_piecesFrom (line skip : Nat) (cs : List Char) :
    ∀ piece ∈ piecesFrom line skip cs, piece.IsRead := by
  induction line, skip, cs using piecesFrom.induct with
  | case1 line skip =>
      intro piece hpiece
      simp [piecesFrom] at hpiece
  | case2 line skip c rest ih => rwa [piecesFrom]
  | case3 line c rest hat meaning n hread ih =>
      rw [piecesFrom, if_pos hat, hread]
      intro piece hpiece
      rcases List.mem_cons.mp hpiece with rfl | hpiece
      · exact ⟨rest, n, hread⟩
      · exact ih piece hpiece
  | case4 line c rest hat e hread =>
      rw [piecesFrom, if_pos hat, hread]
      intro piece hpiece
      cases List.mem_singleton.mp hpiece
      trivial
  | case5 line c rest hat hread ih =>
      rw [piecesFrom, if_pos hat, hread]
      exact isRead_of_mem_pushText ih
  | case6 line c rest hat ih =>
      rw [piecesFrom, if_neg hat]
      exact isRead_of_mem_pushText ih

theorem Builder.AllRead.addPiece {b next : Builder} (h : b.AllRead) {piece : Piece}
    (hpiece : piece.IsRead) (hnext : b.addPiece piece = .ok next) : next.AllRead := by
  cases piece with
  | text line s =>
      cases hnext
      exact h.push rfl trivial
  | directive line s meaning =>
      simp only [Builder.addPiece] at hnext
      cases hstep : b.addDirective line meaning with
      | error fault =>
          rw [hstep] at hnext
          cases hnext
      | ok after =>
          rw [hstep] at hnext
          cases hnext
          exact h.addDirective hpiece hstep
  | fault line fault => cases hnext

theorem Builder.AllRead.foldlM {b last : Builder} (h : b.AllRead) {pieces : List Piece}
    (hpieces : ∀ piece ∈ pieces, piece.IsRead)
    (hlast : pieces.foldlM Builder.addPiece b = .ok last) : last.AllRead := by
  induction pieces generalizing b with
  | nil =>
      cases hlast
      exact h
  | cons piece rest ih =>
      rw [List.foldlM_cons, bind_eq_ok_iff] at hlast
      rcases hlast with ⟨next, hstep, hlast⟩
      exact ih (h.addPiece (hpieces piece List.mem_cons_self) hstep)
        (fun other hother => hpieces other (List.mem_cons_of_mem _ hother)) hlast

theorem View.allRead_of_parse {text : String} {nodes : List Node}
    (h : View.parse text = .ok nodes) : Node.AllRead nodes := by
  rcases bind_eq_ok_iff.mp h with ⟨last, hfold, h⟩
  have hlast : last.AllRead :=
    Builder.AllRead.empty.foldlM (Piece.isRead_of_mem_piecesFrom 1 0 text.toList) hfold
  unfold Builder.result at h
  split at h
  · cases h
    exact hlast.nodes.reverse
  · cases h

end Stencil
