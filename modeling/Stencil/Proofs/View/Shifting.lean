import Stencil.Proofs.View.Rebuilding

/-!
# Texts further down

A text that comes to stand behind another one falls into the same pieces as by itself. They lie
further on, and the lines that they keep are higher by the line breaks in front. So are the lines
in its tree, and nothing else changes there.
-/

namespace Stencil

/-! # Lines of nodes -/

namespace Node

mutual

def shift (k : Nat) : Node → Node
  | text n s => text (n + k) s
  | interpolation n e => interpolation (n + k) e
  | shorthand n path => shorthand (n + k) path
  | declaration n pattern e => declaration (n + k) pattern e
  | conditional n branches otherwise =>
      conditional (n + k) (shiftBranches k branches)
        (match otherwise with
        | some body => some (shiftAll k body)
        | none => none)
  | loop n item index collection body => loop (n + k) item index collection (shiftAll k body)
  | inclusion n path data => inclusion (n + k) path data

def shiftAll (k : Nat) : List Node → List Node
  | [] => []
  | node :: rest => shift k node :: shiftAll k rest

def shiftBranches (k : Nat) : List (Branch Node) → List (Branch Node)
  | [] => []
  | branch :: rest =>
      ⟨branch.condition, branch.line + k, shiftAll k branch.body⟩ :: shiftBranches k rest

end

end Node

def BlockEvent.shift (k : Nat) : BlockEvent → BlockEvent
  | leaf n found => leaf (n + k) found
  | openIf n condition => openIf (n + k) condition
  | elif n condition => elif (n + k) condition
  | otherwise => otherwise
  | openEach n item index collection => openEach (n + k) item index collection
  | close => close

def Piece.shift (k : Nat) : Piece → Piece
  | text n s => text (n + k) s
  | directive n s meaning => directive (n + k) s meaning
  | fault n found => fault (n + k) found

/-! # Events -/

theorem Piece.event?_shift (k : Nat) (piece : Piece) :
    (piece.shift k).event? = piece.event?.map (BlockEvent.shift k) := by
  cases piece with
  | directive n s meaning => cases meaning <;> rfl
  | _ => rfl

theorem Piece.filterMap_event?_shift (k : Nat) (pieces : List Piece) :
    (pieces.map (shift k)).filterMap event? =
      (pieces.filterMap event?).map (BlockEvent.shift k) := by
  rw [List.filterMap_map, List.map_filterMap]
  exact List.filterMap_congr fun piece _ => event?_shift k piece

theorem BlockEvent.isComplete_shift {k : Nat} {event : BlockEvent} (h : event.IsComplete) :
    (event.shift k).IsComplete := by
  cases event <;> exact h

theorem Piece.isWellFormed_shift (k : Nat) {piece : Piece} (h : piece.IsWellFormed) :
    (piece.shift k).IsWellFormed := by
  rcases h with ⟨event, hevent, hcomplete⟩
  refine ⟨event.shift k, ?_, BlockEvent.isComplete_shift hcomplete⟩
  rw [event?_shift, hevent]
  rfl

namespace Node

mutual

theorem events_shift (k : Nat) : (node : Node) →
    (node.shift k).events = node.events.map (BlockEvent.shift k)
  | text _ _ => rfl
  | interpolation _ _ => rfl
  | shorthand _ _ => rfl
  | declaration _ _ _ => rfl
  | inclusion _ _ _ => rfl
  | loop n item index collection body => by
      simp [shift, events, eventsAll_shift k body, BlockEvent.shift]
  | conditional n branches none => by
      simp [shift, events, armEvents_shift k n branches, BlockEvent.shift]
  | conditional n branches (some body) => by
      simp [shift, events, armEvents_shift k n branches, eventsAll_shift k body, BlockEvent.shift]

theorem eventsAll_shift (k : Nat) : (nodes : List Node) →
    eventsAll (shiftAll k nodes) = (eventsAll nodes).map (BlockEvent.shift k)
  | [] => rfl
  | node :: rest => by
      simp [shiftAll, eventsAll, events_shift k node, eventsAll_shift k rest]

theorem armEvents_shift (k n : Nat) : (branches : List (Branch Node)) →
    armEvents (n + k) (shiftBranches k branches) =
      (armEvents n branches).map (BlockEvent.shift k)
  | [] => rfl
  | first :: others => by
      simp [shiftBranches, armEvents, eventsAll_shift k first.body, laterArmEvents_shift k others,
        BlockEvent.shift]

theorem laterArmEvents_shift (k : Nat) : (branches : List (Branch Node)) →
    laterArmEvents (shiftBranches k branches) =
      (laterArmEvents branches).map (BlockEvent.shift k)
  | [] => rfl
  | branch :: rest => by
      simp [shiftBranches, laterArmEvents, eventsAll_shift k branch.body,
        laterArmEvents_shift k rest, BlockEvent.shift]

end

/-! # Nodes inside -/

mutual

theorem walk_shift (k : Nat) : (node : Node) → (node.shift k).walk = node.walk.map (shift k)
  | text _ _ => rfl
  | interpolation _ _ => rfl
  | shorthand _ _ => rfl
  | declaration _ _ _ => rfl
  | inclusion _ _ _ => rfl
  | loop n item index collection body => by
      simp [shift, walk, walkAll_shift k body]
  | conditional n branches none => by
      simp [shift, walk, walkBranches_shift k branches]
  | conditional n branches (some body) => by
      simp [shift, walk, walkBranches_shift k branches, walkAll_shift k body]

theorem walkAll_shift (k : Nat) : (nodes : List Node) →
    walkAll (shiftAll k nodes) = (walkAll nodes).map (shift k)
  | [] => rfl
  | node :: rest => by
      simp [shiftAll, walkAll, walk_shift k node, walkAll_shift k rest]

theorem walkBranches_shift (k : Nat) : (branches : List (Branch Node)) →
    walkBranches (shiftBranches k branches) = (walkBranches branches).map (shift k)
  | [] => rfl
  | branch :: rest => by
      simp [shiftBranches, walkBranches, walkAll_shift k branch.body, walkBranches_shift k rest]

end

theorem isBuilt_shift (k : Nat) {node : Node} (h : node.IsBuilt) : (node.shift k).IsBuilt := by
  cases node with
  | conditional n branches otherwise =>
      rcases h with ⟨condition, body, others, rfl⟩
      exact ⟨condition, shiftAll k body, shiftBranches k others, rfl⟩
  | _ => trivial

end Node

/-! # Offsets -/

section Offsets

variable {front text : List Char} {i j : Nat}

theorem drop_length_add (front text : List Char) (i : Nat) :
    (front ++ text).drop (front.length + i) = text.drop i := by
  rw [← List.drop_drop, List.drop_left]

theorem getElem?_length_add (front text : List Char) (i : Nat) :
    (front ++ text)[front.length + i]? = text[i]? := by
  rw [← List.head?_drop, ← List.head?_drop, drop_length_add]

theorem lineAt_length_add (front text : List Char) (i : Nat) :
    lineAt (front ++ text) (front.length + i) = lineAt text i + front.count '\n' := by
  rw [lineAt, lineAt, List.take_length_add_append, List.count_append]
  omega

theorem slice_length_add (front text : List Char) (i j : Nat) :
    slice (front ++ text) (front.length + i) (front.length + j) = slice text i j := by
  rw [slice, slice, drop_length_add, Nat.add_sub_add_left]

theorem Stands.shift (front : List Char) {meaning : Directive} (h : Stands text i meaning j) :
    Stands (front ++ text) (front.length + i) meaning (front.length + j) where
  sign := by rw [getElem?_length_add, h.sign]
  ahead := Nat.add_lt_add_left h.ahead front.length
  inside := by
    rw [List.length_append]
    exact Nat.add_le_add_left h.inside front.length
  read := by rw [Nat.add_assoc, drop_length_add, Nat.add_sub_add_left, h.read]

theorem Stumbles.shift (front : List Char) {fault : StructureFault} (h : Stumbles text i fault) :
    Stumbles (front ++ text) (front.length + i) fault where
  sign := by rw [getElem?_length_add, h.sign]
  read := by rw [Nat.add_assoc, drop_length_add, h.read]

theorem Begins.unshift {front : List Char} (h : Begins (front ++ text) (front.length + i)) :
    Begins text i where
  sign := by rw [← getElem?_length_add front, h.sign]
  read := by
    rw [← drop_length_add front, ← Nat.add_assoc]
    exact h.read

theorem IsLiteral.shift (front : List Char) (h : IsLiteral text i j) :
    IsLiteral (front ++ text) (front.length + i) (front.length + j) := by
  intro k hstart hstop hbegins
  obtain ⟨m, rfl⟩ : ∃ m, k = front.length + m := ⟨k - front.length, by omega⟩
  exact h m (by omega) (by omega) hbegins.unshift

theorem Piece.isText_shift (k : Nat) (piece : Piece) : (piece.shift k).isText = piece.isText := by
  cases piece <;> rfl

theorem Laid.shift (front : List Char) {pieces : List Piece} (h : Laid text i pieces) :
    Laid (front ++ text) (front.length + i) (pieces.map (Piece.shift (front.count '\n'))) := by
  induction h with
  | done hend => exact .done (by rw [hend, List.length_append])
  | @text start stop pieces hahead hinside hliteral hhead _ ih =>
      have hnext : ∀ piece ∈ (pieces.map (Piece.shift (front.count '\n'))).head?,
          piece.isText = false := by
        intro piece hpiece
        rw [List.head?_map] at hpiece
        rcases Option.map_eq_some_iff.mp hpiece with ⟨first, hfirst, rfl⟩
        rw [Piece.isText_shift]
        exact hhead first hfirst
      rw [List.map_cons, Piece.shift, ← lineAt_length_add, ← slice_length_add front]
      exact .text (Nat.add_lt_add_left hahead _)
        (by rw [List.length_append]; exact Nat.add_le_add_left hinside _) (hliteral.shift front)
        hnext ih
  | directive hstands _ ih =>
      rw [List.map_cons, Piece.shift, ← lineAt_length_add, ← slice_length_add front]
      exact .directive (hstands.shift front) ih
  | fault hstumbles =>
      rw [List.map_singleton, Piece.shift, ← lineAt_length_add]
      exact .fault (hstumbles.shift front)

end Offsets

end Stencil
