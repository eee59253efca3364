import Stencil.Proofs.View.Tiling

/-!
# Trees from their events

A tree gives its events, and the events give back the tree: a builder that is handed the events of
some nodes puts just these nodes behind those it has. All this needs is that conditionals begin with
their first arm, and that every further arm has a condition.
-/

namespace Stencil

def Node.IsBuilt : Node → Prop
  | conditional line branches _ =>
      ∃ condition body others, branches = ⟨condition, line, body⟩ :: others
  | _ => True

/-! # What is parsed is built -/

section Places

variable {text : List Char}

theorem Arms.exists_first {start stop : Nat} {branches : List (Branch Node)} :
    Arms text start branches stop →
      ∃ condition body others, branches = ⟨condition, lineAt text start, body⟩ :: others
  | .first _ _ => ⟨_, _, [], rfl⟩
  | .next hbefore _ _ => by
      rcases hbefore.exists_first with ⟨condition, body, others, rfl⟩
      exact ⟨condition, body, _, rfl⟩

theorem Covers.isBuilt {start stop : Nat} {node : Node} (h : Covers text start node stop) :
    node.IsBuilt := by
  cases h with
  | conditional harms => exact harms.exists_first
  | otherwise harms => exact harms.exists_first
  | _ => trivial

end Places

theorem View.isBuilt_of_parse {text : String} {nodes : List Node} (h : parse text = .ok nodes) :
    ∀ node ∈ Node.walkAll nodes, node.IsBuilt := by
  intro node hnode
  rcases (tiles_of_parse h).inside hnode with ⟨start, stop, hcovers⟩
  exact hcovers.isBuilt

/-! # What is handed over is built again -/

namespace Builder

inductive InArm (outer : List OpenBlock) (line : Nat) (before : List Node) :
    Builder → List (Branch Node) → Prop where
  | intro {done : List (Branch Node)} {condition : String} {conditionLine : Nat}
      {nodes : List Node} :
      InArm outer line before ⟨.arm line before done condition conditionLine :: outer, nodes⟩
        (done.reverse ++ [⟨condition, conditionLine, nodes.reverse⟩])

section Arms

variable {outer : List OpenBlock} {line : Nat} {before : List Node} {b : Builder}
  {branches : List (Branch Node)}

theorem InArm.close (h : InArm outer line before b branches) :
    b.addEvent .close = .ok ⟨outer, .conditional line branches none :: before⟩ := by
  cases h with
  | intro => simp [addEvent, Builder.close, OpenBlock.finish]

theorem InArm.otherwise (h : InArm outer line before b branches) :
    b.addEvent .otherwise = .ok ⟨.otherwise line before branches.reverse :: outer, []⟩ := by
  cases h with
  | intro => simp [addEvent, Builder.otherwise]

theorem InArm.elif (h : InArm outer line before b branches) {condition : String}
    (hcondition : condition.isEmpty = false) (conditionLine : Nat) :
    ∃ next, b.addEvent (.elif conditionLine condition) = .ok next ∧
      ∀ body : List Node, InArm outer line before ⟨next.blocks, body.reverse ++ next.nodes⟩
        (branches ++ [⟨condition, conditionLine, body⟩]) := by
  cases h with
  | @intro done c cl nodes =>
      refine ⟨⟨.arm line before (⟨c, cl, nodes.reverse⟩ :: done) condition conditionLine :: outer,
        []⟩, by simp [addEvent, Builder.elif, hcondition], ?_⟩
      intro body
      have harm : InArm outer line before
          ⟨.arm line before (⟨c, cl, nodes.reverse⟩ :: done) condition conditionLine :: outer,
            body.reverse ++ []⟩ _ := .intro
      simpa using harm

theorem InArm.foldlM_close (h : InArm outer line before b branches)
    {otherwise : Option (List Node)}
    (hlast : ∀ last ∈ otherwise, ∀ next : Builder, (Node.eventsAll last).foldlM addEvent next =
      .ok ⟨next.blocks, last.reverse ++ next.nodes⟩) :
    (otherwise.elim [] (fun last => BlockEvent.otherwise :: Node.eventsAll last) ++
      [BlockEvent.close]).foldlM addEvent b =
        .ok ⟨outer, .conditional line branches otherwise :: before⟩ := by
  cases otherwise with
  | none =>
      rw [Option.elim_none, List.nil_append, foldlM_cons_of_ok h.close]
      rfl
  | some last =>
      rw [Option.elim_some, List.cons_append, foldlM_cons_of_ok h.otherwise,
        foldlM_append_of_ok (hlast last rfl _)]
      simp [addEvent, Builder.close, OpenBlock.finish]

end Arms

mutual

theorem foldlM_events : (node : Node) → (∀ inner ∈ node.walk, inner.IsBuilt) →
    (∀ event ∈ node.events, event.IsComplete) →
      ∀ b : Builder, node.events.foldlM addEvent b = .ok (b.push node)
  | .text _ _, _, _, _ => rfl
  | .interpolation _ _, _, _, _ => rfl
  | .shorthand _ _, _, _, _ => rfl
  | .declaration _ _ _, _, _, _ => rfl
  | .inclusion _ _ _, _, _, _ => rfl
  | .loop line item index collection body, hbuilt, hcomplete, b => by
      rw [Node.walk, List.forall_mem_cons] at hbuilt
      rw [Node.events, List.forall_mem_cons, List.forall_mem_append] at hcomplete
      have hopen : b.addEvent (.openEach line item index collection) =
          .ok ⟨.loop line b.nodes item index collection :: b.blocks, []⟩ := rfl
      have hbody := foldlM_eventsAll body hbuilt.2 hcomplete.2.1
        ⟨.loop line b.nodes item index collection :: b.blocks, []⟩
      rw [Node.events, foldlM_cons_of_ok hopen, foldlM_append_of_ok hbody]
      simp [addEvent, close, OpenBlock.finish, push]
  | .conditional line [] otherwise, hbuilt, _, _ => by
      rcases hbuilt _ (Node.mem_walk_self _) with ⟨condition, body, others, hnone⟩
      cases hnone
  | .conditional line (first :: others) otherwise, hbuilt, hcomplete, b => by
      rw [Node.walk_conditional, Node.walkBranches, List.forall_mem_cons, List.forall_mem_append,
        List.forall_mem_append] at hbuilt
      rw [Node.events_conditional, Node.armEvents, List.forall_mem_append, List.forall_mem_cons,
        List.forall_mem_append, List.forall_mem_append] at hcomplete
      rcases hbuilt with ⟨hself, ⟨hbuiltFirst, hbuiltLater⟩, hbuiltElse⟩
      rcases hcomplete with ⟨⟨-, hcompleteFirst, hcompleteLater⟩, hcompleteElse, -⟩
      have hfirst : (⟨first.condition, line, first.body⟩ : Branch Node) = first := by
        rcases hself with ⟨condition, body, rest, heq⟩
        rw [(List.cons.inj heq).1]
      have hopen : b.addEvent (.openIf line first.condition) =
          .ok ⟨.arm line b.nodes [] first.condition line :: b.blocks, []⟩ := rfl
      have hbody := foldlM_eventsAll first.body hbuiltFirst hcompleteFirst
        ⟨.arm line b.nodes [] first.condition line :: b.blocks, []⟩
      rcases foldlM_laterArmEvents others hbuiltLater hcompleteLater
        ⟨.arm line b.nodes [] first.condition line :: b.blocks, first.body.reverse ++ []⟩ _
          .intro with ⟨next, hnext, harm⟩
      rw [List.append_nil, List.reverse_reverse, List.reverse_nil, List.nil_append, hfirst,
        List.singleton_append] at harm
      rw [Node.events_conditional, Node.armEvents, List.cons_append, List.append_assoc,
        foldlM_cons_of_ok hopen, foldlM_append_of_ok hbody, foldlM_append_of_ok hnext]
      cases otherwise with
      | none =>
          refine harm.foldlM_close ?_
          rintro _ hnone
          cases hnone
      | some last =>
          rw [Option.elim_some, List.forall_mem_cons] at hcompleteElse
          have hlast := foldlM_eventsAll last hbuiltElse hcompleteElse.2
          refine harm.foldlM_close ?_
          rintro _ hsome
          cases hsome
          exact hlast

theorem foldlM_eventsAll : (nodes : List Node) → (∀ inner ∈ Node.walkAll nodes, inner.IsBuilt) →
    (∀ event ∈ Node.eventsAll nodes, event.IsComplete) →
      ∀ b : Builder, (Node.eventsAll nodes).foldlM addEvent b =
        .ok ⟨b.blocks, nodes.reverse ++ b.nodes⟩
  | [], _, _, _ => rfl
  | node :: rest, hbuilt, hcomplete, b => by
      rw [Node.walkAll, List.forall_mem_append] at hbuilt
      rw [Node.eventsAll, List.forall_mem_append] at hcomplete
      rw [Node.eventsAll, foldlM_append_of_ok (foldlM_events node hbuilt.1 hcomplete.1 b),
        foldlM_eventsAll rest hbuilt.2 hcomplete.2]
      simp [push]

theorem foldlM_laterArmEvents {outer : List OpenBlock} {line : Nat} {before : List Node} :
    (more : List (Branch Node)) → (∀ inner ∈ Node.walkBranches more, inner.IsBuilt) →
      (∀ event ∈ Node.laterArmEvents more, event.IsComplete) →
        ∀ (b : Builder) (branches : List (Branch Node)), InArm outer line before b branches →
          ∃ next, (Node.laterArmEvents more).foldlM addEvent b = .ok next ∧
            InArm outer line before next (branches ++ more)
  | [], _, _, b, branches, h => ⟨b, rfl, by rwa [List.append_nil]⟩
  | branch :: rest, hbuilt, hcomplete, b, branches, h => by
      rw [Node.walkBranches, List.forall_mem_append] at hbuilt
      rw [Node.laterArmEvents, List.forall_mem_cons, List.forall_mem_append] at hcomplete
      rcases hcomplete with ⟨hcondition, hbody, hrest⟩
      rcases h.elif hcondition branch.line with ⟨next, hnext, harm⟩
      have hnodes := foldlM_eventsAll branch.body hbuilt.1 hbody next
      rcases foldlM_laterArmEvents rest hbuilt.2 hrest _ _ (harm branch.body) with
        ⟨last, hlast, hlater⟩
      refine ⟨last, ?_, by simpa using hlater⟩
      rw [Node.laterArmEvents, foldlM_cons_of_ok hnext, foldlM_append_of_ok hnodes, hlast]

end

end Builder

namespace View

theorem parse_of_events {text : String} {nodes : List Node}
    (hwell : ∀ piece ∈ Piece.ofText text.toList, piece.IsWellFormed)
    (hevents : events text = Node.eventsAll nodes)
    (hbuilt : ∀ node ∈ Node.walkAll nodes, node.IsBuilt) : parse text = .ok nodes := by
  have hcomplete := isComplete_of_mem_events hwell
  rw [hevents] at hcomplete
  have hfold := Builder.foldlM_eventsAll nodes hbuilt hcomplete .empty
  rw [← hevents] at hfold
  refine bind_eq_ok_iff.mpr ⟨_, (Builder.foldlM_addPiece_eq_ok_iff hwell).mpr hfold, ?_⟩
  simp [Builder.result, Builder.empty]

end View
end Stencil
