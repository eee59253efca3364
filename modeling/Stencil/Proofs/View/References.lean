import Stencil.Proofs.View.Nesting
import Stencil.Proofs.View.Pattern

/-!
# The expressions of a view

The directives of a text hold expressions, in the order in which they stand there. The nodes
of a view hold the same expressions, each as often. Reading them off node by node takes the
conditions of all arms of a conditional before any of its bodies, so that an expression in a
body comes after the conditions of the arms behind it. Nothing else changes the order.
-/

namespace Stencil

/-! # Expressions of directives -/

def BlockEvent.expression? : BlockEvent → Option String
  | leaf _ (.text _) => none
  | leaf _ (.interpolation e) => some e
  | leaf _ (.shorthand path) => some path
  | leaf _ (.declaration _ e) => some e
  | leaf _ (.inclusion _ data) => data
  | openIf _ condition => some condition
  | elif _ condition => some condition
  | otherwise => none
  | openEach _ _ _ collection => some collection
  | close => none

def View.expressions (text : String) : List String :=
  (events text).filterMap BlockEvent.expression?

namespace Node

def written (nodes : List Node) : List String :=
  (eventsAll nodes).filterMap BlockEvent.expression?

def armReferences (branch : Branch Node) : List String :=
  branch.condition :: references branch.body

/-- Whether the arms of a conditional, its last apart, have bodies without expressions. -/
def KeepsOrder : Node → Prop
  | conditional _ branches _ => ∀ branch ∈ branches.dropLast, references branch.body = []
  | _ => True

instance : DecidablePred KeepsOrder
  | .conditional _ branches _ =>
      inferInstanceAs (Decidable (∀ branch ∈ branches.dropLast, references branch.body = []))
  | .text _ _ => isTrue trivial
  | .interpolation _ _ => isTrue trivial
  | .shorthand _ _ => isTrue trivial
  | .declaration _ _ _ => isTrue trivial
  | .loop _ _ _ _ _ => isTrue trivial
  | .inclusion _ _ _ => isTrue trivial

/-! # References, node by node -/

theorem references_cons (node : Node) (rest : List Node) :
    references (node :: rest) = references [node] ++ references rest := by
  simp [references, walkAll]

theorem references_walkBranches (branches : List (Branch Node)) :
    (walkBranches branches).flatMap ownReferences = branches.flatMap (references ·.body) := by
  induction branches with
  | nil => rfl
  | cons first others ih => simp [walkBranches, references, ih]

theorem walk_conditional (line : Nat) (branches : List (Branch Node))
    (otherwise : Option (List Node)) :
    (conditional line branches otherwise).walk =
      conditional line branches otherwise ::
        (walkBranches branches ++ walkAll (otherwise.getD [])) := by
  cases otherwise <;> rfl

theorem references_conditional (line : Nat) (branches : List (Branch Node))
    (otherwise : Option (List Node)) :
    references [conditional line branches otherwise] =
      branches.map (·.condition) ++ branches.flatMap (references ·.body) ++
        references (otherwise.getD []) := by
  simp [references, walkAll, walk_conditional, ownReferences, references_walkBranches]

theorem references_loop (line : Nat) (item index collection : String) (body : List Node) :
    references [loop line item index collection body] = collection :: references body := by
  simp [references, walkAll, walk, ownReferences]

/-! # Expressions as they stand, node by node -/

theorem written_cons (node : Node) (rest : List Node) :
    written (node :: rest) = written [node] ++ written rest := by
  simp [written, eventsAll]

theorem written_laterArms (branches : List (Branch Node)) :
    (laterArmEvents branches).filterMap BlockEvent.expression? =
      branches.flatMap fun branch => branch.condition :: written branch.body := by
  induction branches with
  | nil => rfl
  | cons branch rest ih => simp [laterArmEvents, BlockEvent.expression?, written, ih]

theorem events_conditional (line : Nat) (branches : List (Branch Node))
    (otherwise : Option (List Node)) :
    (conditional line branches otherwise).events =
      armEvents line branches ++
        ((otherwise.elim [] fun body => .otherwise :: eventsAll body) ++ [.close]) := by
  cases otherwise <;> rfl

theorem written_conditional (line : Nat) {branches : List (Branch Node)}
    (hbranches : branches ≠ []) (otherwise : Option (List Node)) :
    written [conditional line branches otherwise] =
      branches.flatMap (fun branch => branch.condition :: written branch.body) ++
        written (otherwise.getD []) := by
  cases branches with
  | nil => exact absurd rfl hbranches
  | cons first others =>
      cases otherwise <;>
        simp [written, eventsAll, events, armEvents, List.filterMap_cons, BlockEvent.expression?,
          written_laterArms]

theorem written_loop (line : Nat) (item index collection : String) (body : List Node) :
    written [loop line item index collection body] = collection :: written body := by
  simp [written, eventsAll, events, BlockEvent.expression?]

/-! # Both orders side by side -/

/-- Whether a relation between rows looks at parts of the rows one after the other. -/
structure IsPartwise (R : List String → List String → Prop) : Prop where
  refl (xs : List String) : R xs xs
  trans {xs ys zs : List String} : R xs ys → R ys zs → R xs zs
  append {xs ys xs' ys' : List String} : R xs ys → R xs' ys' → R (xs ++ xs') (ys ++ ys')

def Arranges (R : List String → List String → Prop) : Node → Prop
  | conditional _ branches _ =>
      branches ≠ [] ∧
        R (branches.map (·.condition) ++ branches.flatMap (references ·.body))
          (branches.flatMap armReferences)
  | _ => True

section Orders

variable {R : List String → List String → Prop} (hR : IsPartwise R)

include hR

mutual

theorem related_of_arranges :
    (node : Node) → (∀ inner ∈ node.walk, inner.Arranges R) →
      R (references [node]) (written [node])
  | .text _ _, _ => hR.refl _
  | .interpolation _ _, _ => hR.refl _
  | .shorthand _ _, _ => hR.refl _
  | .declaration _ _ _, _ => hR.refl _
  | .inclusion _ _ none, _ => hR.refl _
  | .inclusion _ _ (some _), _ => hR.refl _
  | .conditional line branches otherwise, h => by
      rcases h _ (mem_walk_self _) with ⟨hbranches, harms⟩
      rw [references_conditional, written_conditional line hbranches]
      refine hR.append (hR.trans harms (related_arms_of_arranges branches ?_)) ?_
      · intro branch hbranch inner hinner
        exact h inner (mem_walk_conditional.mpr (.inr (.inl ⟨branch, hbranch, hinner⟩)))
      · cases otherwise with
        | none => exact hR.refl _
        | some body =>
            exact relatedAll_of_arranges body fun inner hinner =>
              h inner (mem_walk_conditional.mpr (.inr (.inr ⟨body, rfl, hinner⟩)))
  | .loop line item index collection body, h => by
      rw [references_loop, written_loop]
      refine hR.append (hR.refl [collection]) (relatedAll_of_arranges body ?_)
      intro inner hinner
      exact h inner (mem_walk_loop.mpr (.inr hinner))

theorem relatedAll_of_arranges :
    (nodes : List Node) → (∀ inner ∈ walkAll nodes, inner.Arranges R) →
      R (references nodes) (written nodes)
  | [], _ => hR.refl _
  | node :: rest, h => by
      rw [references_cons, written_cons]
      exact hR.append
        (related_of_arranges node fun inner hinner =>
          h inner (List.mem_append_left _ hinner))
        (relatedAll_of_arranges rest fun inner hinner =>
          h inner (List.mem_append_right _ hinner))

theorem related_arms_of_arranges :
    (branches : List (Branch Node)) →
      (∀ branch ∈ branches, ∀ inner ∈ walkAll branch.body, inner.Arranges R) →
      R (branches.flatMap armReferences)
        (branches.flatMap fun branch => branch.condition :: written branch.body)
  | [], _ => hR.refl _
  | branch :: rest, h => by
      have hbody := relatedAll_of_arranges branch.body (h branch List.mem_cons_self)
      have hrest := related_arms_of_arranges rest fun other hother =>
        h other (List.mem_cons_of_mem _ hother)
      exact hR.append (hR.append (hR.refl [branch.condition]) hbody) hrest

end

end Orders

theorem isPartwise_perm : IsPartwise List.Perm where
  refl := List.Perm.refl
  trans := List.Perm.trans
  append := List.Perm.append

theorem isPartwise_eq : IsPartwise Eq where
  refl _ := rfl
  trans := Eq.trans
  append hfirst hsecond := by rw [hfirst, hsecond]

theorem perm_armReferences (branches : List (Branch Node)) :
    (branches.map (·.condition) ++ branches.flatMap (references ·.body)).Perm
      (branches.flatMap armReferences) := by
  induction branches with
  | nil => exact .refl _
  | cons branch rest ih =>
      refine .cons branch.condition ?_
      exact List.perm_append_comm_assoc _ _ _ |>.trans (.append_left _ ih)

theorem armReferences_eq {branches : List (Branch Node)}
    (h : ∀ branch ∈ branches.dropLast, references branch.body = []) :
    branches.map (·.condition) ++ branches.flatMap (references ·.body) =
      branches.flatMap armReferences := by
  induction branches with
  | nil => rfl
  | cons branch rest ih =>
      cases rest with
      | nil => simp [armReferences]
      | cons next others =>
          have hbody : references branch.body = [] := h branch List.mem_cons_self
          have hrest := ih fun other hother => h other (List.mem_cons_of_mem _ hother)
          simp only [List.map_cons, List.flatMap_cons, armReferences, hbody, List.nil_append,
            List.cons_append] at hrest ⊢
          rw [hrest]

/-! # Every conditional has an arm -/

mutual

theorem events_subset_of_mem_walk {inner : Node} :
    (node : Node) → inner ∈ node.walk → inner.events ⊆ node.events
  | .text _ _, h => by rw [List.mem_singleton.mp h]; exact List.Subset.refl _
  | .interpolation _ _, h => by rw [List.mem_singleton.mp h]; exact List.Subset.refl _
  | .shorthand _ _, h => by rw [List.mem_singleton.mp h]; exact List.Subset.refl _
  | .declaration _ _ _, h => by rw [List.mem_singleton.mp h]; exact List.Subset.refl _
  | .inclusion _ _ _, h => by rw [List.mem_singleton.mp h]; exact List.Subset.refl _
  | .conditional line branches otherwise, h => by
      rw [walk_conditional] at h
      rcases List.mem_cons.mp h with rfl | h
      · exact List.Subset.refl _
      · rw [events_conditional]
        rcases List.mem_append.mp h with h | h
        · intro event hevent
          have hin := events_subset_of_mem_walkBranches line branches h hevent
          exact List.mem_append_left _ hin
        · cases otherwise with
          | none => cases h
          | some body =>
              intro event hevent
              have hin := events_subset_of_mem_walkAll body h hevent
              simp [hin]
  | .loop line item index collection body, h => by
      rcases List.mem_cons.mp h with rfl | h
      · exact List.Subset.refl _
      · intro event hevent
        have hin := events_subset_of_mem_walkAll body h hevent
        exact List.mem_cons_of_mem _ (List.mem_append_left _ hin)

theorem events_subset_of_mem_walkAll {inner : Node} :
    (nodes : List Node) → inner ∈ walkAll nodes → inner.events ⊆ eventsAll nodes
  | [], h => by cases h
  | node :: rest, h => by
      rcases List.mem_append.mp h with h | h
      · intro event hevent
        exact List.mem_append_left _ (events_subset_of_mem_walk node h hevent)
      · intro event hevent
        exact List.mem_append_right _ (events_subset_of_mem_walkAll rest h hevent)

theorem events_subset_of_mem_walkBranches {inner : Node} (line : Nat) :
    (branches : List (Branch Node)) → inner ∈ walkBranches branches →
      inner.events ⊆ armEvents line branches
  | [], h => by cases h
  | first :: others, h => by
      rcases List.mem_append.mp h with h | h
      · intro event hevent
        have hin := events_subset_of_mem_walkAll first.body h hevent
        exact List.mem_cons_of_mem _ (List.mem_append_left _ hin)
      · intro event hevent
        have hin := events_subset_of_mem_laterBranches others h hevent
        exact List.mem_cons_of_mem _ (List.mem_append_right _ hin)

theorem events_subset_of_mem_laterBranches {inner : Node} :
    (branches : List (Branch Node)) → inner ∈ walkBranches branches →
      inner.events ⊆ laterArmEvents branches
  | [], h => by cases h
  | first :: others, h => by
      rcases List.mem_append.mp h with h | h
      · intro event hevent
        have hin := events_subset_of_mem_walkAll first.body h hevent
        exact List.mem_cons_of_mem _ (List.mem_append_left _ hin)
      · intro event hevent
        have hin := events_subset_of_mem_laterBranches others h hevent
        exact List.mem_cons_of_mem _ (List.mem_append_right _ hin)

end

end Node

theorem Directive.IsRead.condition_ne_empty {condition : String}
    (h : (Directive.openIf condition).IsRead) : condition ≠ "" := by
  rcases h.cases with ⟨cs, n, h⟩ | ⟨kind, hkind, header, h⟩ | ⟨cs, start, n, h⟩ | h | h |
    ⟨cs, -, h⟩
  · rcases readInterpolation_ok h with ⟨_, h⟩
    cases h
  · simp only [headed, List.mem_cons, List.not_mem_nil, or_false] at hkind
    rcases hkind with rfl | rfl | rfl | rfl
    · simp only [readIf] at h
      split at h
      next => cases h
      next hinked =>
          cases h
          intro hempty
          rcases Grammar.exists_of_trim header with ⟨front, back, hheader, hfront, hback⟩
          have htrim : Text.trim header = [] := String.ofList_eq_empty_iff.mp hempty
          rw [htrim, List.nil_append] at hheader
          apply hinked
          rw [Text.allBlank, List.all_eq_true, hheader]
          intro c hc
          exact (List.mem_append.mp hc).elim (hfront c) (hback c)
    · cases h
    · rcases readEach_ok h with ⟨_, _, _, h⟩
      cases h
    · rcases readInclude_ok h with ⟨_, _, h⟩
      cases h
  · rcases bind_eq_ok_iff.mp h with ⟨target, -, h⟩
    rcases bind_eq_ok_iff.mp h with ⟨value, -, h⟩
    cases h
  · cases h
  · cases h
  · cases h

namespace View

theorem openIf_not_mem_events (text : String) (line : Nat) :
    BlockEvent.openIf line "" ∉ events text := by
  intro hevent
  rcases List.mem_filterMap.mp hevent with ⟨piece, hpiece, hfound⟩
  have hread := Piece.isRead_of_mem_piecesFrom 1 0 text.toList piece hpiece
  cases piece with
  | text n s => cases hfound
  | fault n fault => cases hfound
  | directive n s meaning =>
      cases meaning with
      | openIf condition =>
          cases hfound
          exact Directive.IsRead.condition_ne_empty hread rfl
      | _ => cases hfound

end View

theorem Builder.isWellFormed_of_addPiece {b next : Builder} {piece : Piece}
    (h : b.addPiece piece = .ok next) : piece.IsWellFormed := by
  cases piece with
  | text line s => exact ⟨_, rfl, trivial⟩
  | fault line fault => cases h
  | directive line s meaning =>
      refine ⟨_, rfl, ?_⟩
      cases meaning with
      | elif condition =>
          cases hempty : condition.isEmpty with
          | false => exact hempty
          | true =>
              simp only [addPiece, addDirective, elif, hempty] at h
              split at h
              next hstep =>
                  split at hstep <;> cases hstep
              next => cases h
      | _ => trivial

theorem Builder.isWellFormed_of_foldlM {b last : Builder} {pieces : List Piece}
    (h : pieces.foldlM addPiece b = .ok last) : ∀ piece ∈ pieces, piece.IsWellFormed := by
  induction pieces generalizing b with
  | nil => simp
  | cons piece rest ih =>
      rw [List.foldlM_cons, bind_eq_ok_iff] at h
      rcases h with ⟨next, hstep, hrest⟩
      exact List.forall_mem_cons.mpr ⟨isWellFormed_of_addPiece hstep, ih hrest⟩

namespace View

section Views

variable {text : String} {nodes : List Node} (h : parse text = .ok nodes)

include h

theorem isWellFormed_of_parse : ∀ piece ∈ Piece.ofText text.toList, piece.IsWellFormed := by
  rcases bind_eq_ok_iff.mp h with ⟨last, hfold, -⟩
  exact Builder.isWellFormed_of_foldlM hfold

theorem eventsAll_of_parse : Node.eventsAll nodes = events text :=
  events_of_parse (isWellFormed_of_parse h) h

theorem branches_ne_nil_of_parse {line : Nat} {branches : List (Branch Node)}
    {otherwise : Option (List Node)}
    (hnode : .conditional line branches otherwise ∈ Node.walkAll nodes) : branches ≠ [] := by
  rintro rfl
  have hevents := Node.events_subset_of_mem_walkAll nodes hnode
  rw [eventsAll_of_parse h, Node.events_conditional] at hevents
  exact openIf_not_mem_events text line (hevents List.mem_cons_self)

theorem arranges_of_parse {R : List String → List String → Prop}
    (hR : ∀ line branches otherwise, .conditional line branches otherwise ∈ Node.walkAll nodes →
      R (branches.map (·.condition) ++ branches.flatMap (Node.references ·.body))
        (branches.flatMap Node.armReferences)) :
    ∀ node ∈ Node.walkAll nodes, node.Arranges R := by
  intro node hnode
  cases node with
  | conditional line branches otherwise =>
      exact ⟨branches_ne_nil_of_parse h hnode, hR line branches otherwise hnode⟩
  | _ => trivial

/--
The references of a view are the expressions of the directives in its text, each occurrence
once. They stand in the order of the text if no arm of a conditional with further conditions
behind it has an expression in its body.
-/
theorem references_of_parse :
    (Node.references nodes).Perm (expressions text) ∧
      ((∀ node ∈ Node.walkAll nodes, node.KeepsOrder) →
        Node.references nodes = expressions text) := by
  rw [expressions, ← eventsAll_of_parse h]
  refine ⟨?_, fun hkeeps => ?_⟩
  · refine Node.relatedAll_of_arranges Node.isPartwise_perm nodes (arranges_of_parse h ?_)
    intro line branches otherwise _
    exact Node.perm_armReferences branches
  · refine Node.relatedAll_of_arranges Node.isPartwise_eq nodes (arranges_of_parse h ?_)
    intro line branches otherwise hnode
    exact Node.armReferences_eq (hkeeps _ hnode)

end Views

theorem references_of_parse_arms :
    parse "@if (a)b@elif (c)@{d}@end@{e}" =
        .ok [.conditional 1 [⟨"a", 1, [.text 1 "b"]⟩, ⟨"c", 1, [.interpolation 1 "d"]⟩] none,
          .interpolation 1 "e"] ∧
      expressions "@if (a)b@elif (c)@{d}@end@{e}" = ["a", "c", "d", "e"] := by
  have hparse : parse "@if (a)b@elif (c)@{d}@end@{e}" =
      .ok [.conditional 1 [⟨"a", 1, [.text 1 "b"]⟩, ⟨"c", 1, [.interpolation 1 "d"]⟩] none,
        .interpolation 1 "e"] := by
    rfl
  refine ⟨hparse, ((references_of_parse hparse).2 ?_).symm⟩
  decide

/-- An expression in a body comes after the conditions of the arms behind it. -/
theorem references_not_in_order :
    parse "@if (a)@{b}@elif (c)@{d}@end" =
        .ok [.conditional 1 [⟨"a", 1, [.interpolation 1 "b"]⟩, ⟨"c", 1, [.interpolation 1 "d"]⟩]
          none] ∧
      Node.references [.conditional 1
          [⟨"a", 1, [.interpolation 1 "b"]⟩, ⟨"c", 1, [.interpolation 1 "d"]⟩] none] =
        ["a", "c", "b", "d"] ∧
      expressions "@if (a)@{b}@elif (c)@{d}@end" = ["a", "b", "c", "d"] := by
  refine ⟨by rfl, by rfl, ?_⟩
  decide

end View
end Stencil
