import Stencil.Proofs.Outcome
import Stencil.View.Block

/-!
# The blocks of a view

To its blocks, the text of a view is a row of events: a block opens, goes on with another arm
or closes, and what stands between is of no concern. A small grammar says which rows are
nested well. A text whose directives are well formed is a view if and only if its events are,
and the nodes of the view give back the events.
-/

namespace Stencil

/-! # Events -/

inductive Leaf where
  | text (text : String)
  | interpolation (expression : String)
  | shorthand (path : String)
  | declaration (pattern : Pattern) (expression : String)
  | inclusion (path : Text) (data : Option String)

def Leaf.node (line : Nat) : Leaf → Node
  | text t => .text line t
  | interpolation e => .interpolation line e
  | shorthand path => .shorthand line path
  | declaration pattern e => .declaration line pattern e
  | inclusion path data => .inclusion line path data

/-- What a piece of a text is to the blocks around it. -/
inductive BlockEvent where
  | leaf (line : Nat) (leaf : Leaf)
  | openIf (line : Nat) (condition : String)
  | elif (line : Nat) (condition : String)
  | otherwise
  | openEach (line : Nat) (item index collection : String)
  | close

def BlockEvent.ofDirective (line : Nat) : Directive → BlockEvent
  | .interpolation e => .leaf line (.interpolation e)
  | .shorthand path => .leaf line (.shorthand path)
  | .declaration pattern e => .leaf line (.declaration pattern e)
  | .inclusion path data => .leaf line (.inclusion path data)
  | .openIf condition => .openIf line condition
  | .elif condition => .elif line condition
  | .openEach item index collection => .openEach line item index collection
  | .otherwise => .otherwise
  | .close => .close

/-- Whether a directive says all it has to: another arm needs a condition. -/
def BlockEvent.IsComplete : BlockEvent → Prop
  | elif _ condition => condition.isEmpty = false
  | _ => True

instance : DecidablePred BlockEvent.IsComplete
  | .elif _ condition => inferInstanceAs (Decidable (condition.isEmpty = false))
  | .leaf _ _ => isTrue trivial
  | .openIf _ _ => isTrue trivial
  | .otherwise => isTrue trivial
  | .openEach _ _ _ _ => isTrue trivial
  | .close => isTrue trivial

def Piece.event? : Piece → Option BlockEvent
  | text line s => some (.leaf line (.text (String.ofList s)))
  | directive line _ meaning => some (.ofDirective line meaning)
  | fault _ _ => none

def Piece.IsWellFormed (piece : Piece) : Prop :=
  ∃ event ∈ piece.event?, event.IsComplete

instance : DecidablePred Piece.IsWellFormed := fun piece =>
  inferInstanceAs (Decidable (∃ event ∈ piece.event?, event.IsComplete))

def View.events (text : String) : List BlockEvent :=
  (Piece.ofText text.toList).filterMap Piece.event?

/-! # The grammar of events -/

inductive BlockPhrase where
  | body
  /-- The arms of a conditional after its first. -/
  | arms

inductive Nested : BlockPhrase → List BlockEvent → Prop where
  | nothing : Nested .body []
  | leaf {line : Nat} {leaf : Leaf} {rest : List BlockEvent} :
      Nested .body rest →
      Nested .body (.leaf line leaf :: rest)
  | conditional {line : Nat} {condition : String} {first others rest : List BlockEvent} :
      Nested .body first →
      Nested .arms others →
      Nested .body rest →
      Nested .body (.openIf line condition :: (first ++ (others ++ .close :: rest)))
  | loop {line : Nat} {item index collection : String} {inner rest : List BlockEvent} :
      Nested .body inner →
      Nested .body rest →
      Nested .body (.openEach line item index collection :: (inner ++ .close :: rest))
  | noArm : Nested .arms []
  | lastArm {body : List BlockEvent} :
      Nested .body body →
      Nested .arms (.otherwise :: body)
  | nextArm {line : Nat} {condition : String} {body others : List BlockEvent} :
      Nested .body body →
      Nested .arms others →
      Nested .arms (.elif line condition :: (body ++ others))

/-! # Events of nodes -/

namespace Node

mutual

def events : Node → List BlockEvent
  | text line t => [.leaf line (.text t)]
  | interpolation line e => [.leaf line (.interpolation e)]
  | shorthand line path => [.leaf line (.shorthand path)]
  | declaration line pattern e => [.leaf line (.declaration pattern e)]
  | inclusion line path data => [.leaf line (.inclusion path data)]
  | conditional line branches otherwise =>
      armEvents line branches ++
        ((match otherwise with
          | some body => .otherwise :: eventsAll body
          | none => []) ++ [.close])
  | loop line item index collection body =>
      .openEach line item index collection :: (eventsAll body ++ [.close])

def eventsAll : List Node → List BlockEvent
  | [] => []
  | node :: rest => events node ++ eventsAll rest

def armEvents (line : Nat) : List (Branch Node) → List BlockEvent
  | [] => [.openIf line ""]
  | first :: others =>
      .openIf line first.condition :: (eventsAll first.body ++ laterArmEvents others)

def laterArmEvents : List (Branch Node) → List BlockEvent
  | [] => []
  | branch :: rest =>
      .elif branch.line branch.condition :: (eventsAll branch.body ++ laterArmEvents rest)

end

@[simp] theorem events_leaf (line : Nat) (leaf : Leaf) :
    (leaf.node line).events = [.leaf line leaf] := by
  cases leaf <;> simp [Leaf.node, events]

theorem eventsAll_append (nodes more : List Node) :
    eventsAll (nodes ++ more) = eventsAll nodes ++ eventsAll more := by
  induction nodes with
  | nil => simp [eventsAll]
  | cons node rest ih => simp [eventsAll, ih]

theorem laterArmEvents_append (branches more : List (Branch Node)) :
    laterArmEvents (branches ++ more) = laterArmEvents branches ++ laterArmEvents more := by
  induction branches with
  | nil => simp [laterArmEvents]
  | cons branch rest ih => simp [laterArmEvents, ih]

theorem armEvents_concat (line : Nat) (branches : List (Branch Node)) (condition : String)
    (conditionLine : Nat) (body : List Node) :
    armEvents line (branches ++ [⟨condition, conditionLine, body⟩]) =
      armEvents line (branches ++ [⟨condition, conditionLine, []⟩]) ++ eventsAll body := by
  cases branches with
  | nil => simp [armEvents, laterArmEvents, eventsAll]
  | cons first others => simp [armEvents, laterArmEvents_append, laterArmEvents, eventsAll]

theorem armEvents_begin (line : Nat) (branches : List (Branch Node)) (last : Branch Node)
    (condition : String) (conditionLine : Nat) :
    armEvents line (branches ++ [last, ⟨condition, conditionLine, []⟩]) =
      armEvents line (branches ++ [last]) ++ [.elif conditionLine condition] := by
  cases branches with
  | nil => simp [armEvents, laterArmEvents, eventsAll]
  | cons first others => simp [armEvents, laterArmEvents_append, laterArmEvents, eventsAll]

/-! # Nodes are nested well -/

mutual

theorem nested_events {rest : List BlockEvent} (hrest : Nested .body rest) :
    (node : Node) → Nested .body (node.events ++ rest)
  | .text _ _ => .leaf hrest
  | .interpolation _ _ => .leaf hrest
  | .shorthand _ _ => .leaf hrest
  | .declaration _ _ _ => .leaf hrest
  | .inclusion _ _ _ => .leaf hrest
  | .conditional line [] none => by
      simpa [events, armEvents] using Nested.conditional .nothing .noArm hrest
  | .conditional line [] (some body) => by
      have hbody : Nested .arms (.otherwise :: eventsAll body) := .lastArm (nested_eventsAll body)
      simpa [events, armEvents] using Nested.conditional .nothing hbody hrest
  | .conditional line (first :: others) none => by
      have hothers := nested_laterArmEvents .noArm others
      simpa [events, armEvents] using
        Nested.conditional (nested_eventsAll first.body) hothers hrest
  | .conditional line (first :: others) (some body) => by
      have hbody : Nested .arms (.otherwise :: eventsAll body) := .lastArm (nested_eventsAll body)
      have hothers := nested_laterArmEvents hbody others
      simpa [events, armEvents] using
        Nested.conditional (nested_eventsAll first.body) hothers hrest
  | .loop line item index collection body => by
      simpa [events] using Nested.loop (nested_eventsAll body) hrest

theorem nested_eventsAll : (nodes : List Node) → Nested .body (eventsAll nodes)
  | [] => .nothing
  | node :: rest => nested_events (nested_eventsAll rest) node

theorem nested_laterArmEvents {more : List BlockEvent} (hmore : Nested .arms more) :
    (branches : List (Branch Node)) → Nested .arms (laterArmEvents branches ++ more)
  | [] => hmore
  | branch :: rest => by
      simpa [laterArmEvents] using
        Nested.nextArm (nested_eventsAll branch.body) (nested_laterArmEvents hmore rest)

end

end Node

/-! # Building by events -/

namespace Builder

def addEvent (b : Builder) : BlockEvent → Except StructureFault Builder
  | .leaf line leaf => .ok (b.push (leaf.node line))
  | .openIf line condition => .ok ⟨.arm line b.nodes [] condition line :: b.blocks, []⟩
  | .elif line condition => b.elif line condition
  | .otherwise => b.otherwise
  | .openEach line item index collection =>
      .ok ⟨.loop line b.nodes item index collection :: b.blocks, []⟩
  | .close => b.close

theorem addPiece_eq_ok_iff {b next : Builder} {piece : Piece} {event : BlockEvent}
    (hevent : piece.event? = some event) :
    b.addPiece piece = .ok next ↔ b.addEvent event = .ok next := by
  cases piece with
  | text line s =>
      cases hevent
      simp [addPiece, addEvent, Leaf.node]
  | directive line s meaning =>
      cases hevent
      have hsame : b.addDirective line meaning = b.addEvent (.ofDirective line meaning) := by
        cases meaning <;> rfl
      rw [addPiece, hsame]
      cases b.addEvent (.ofDirective line meaning) <;> simp
  | fault line fault => cases hevent

theorem foldlM_addPiece_eq_ok_iff {b last : Builder} {pieces : List Piece}
    (hpieces : ∀ piece ∈ pieces, piece.IsWellFormed) :
    pieces.foldlM addPiece b = .ok last ↔
      (pieces.filterMap Piece.event?).foldlM addEvent b = .ok last := by
  induction pieces generalizing b with
  | nil =>
      constructor <;>
        · intro h
          cases h
          rfl
  | cons piece rest ih =>
      rcases hpieces piece List.mem_cons_self with ⟨event, hevent, _⟩
      have hrest : ∀ other ∈ rest, other.IsWellFormed := fun other hother =>
        hpieces other (List.mem_cons_of_mem _ hother)
      rw [List.filterMap_cons_some hevent, List.foldlM_cons, List.foldlM_cons, bind_eq_ok_iff,
        bind_eq_ok_iff]
      simp only [addPiece_eq_ok_iff hevent, ih hrest]

/-! # What is built gives back the events -/

end Builder

def OpenBlock.events : OpenBlock → List BlockEvent
  | arm line before done condition conditionLine =>
      Node.eventsAll before.reverse ++
        Node.armEvents line (done.reverse ++ [⟨condition, conditionLine, []⟩])
  | otherwise line before done =>
      Node.eventsAll before.reverse ++ Node.armEvents line done.reverse ++ [.otherwise]
  | loop line before item index collection =>
      Node.eventsAll before.reverse ++ [.openEach line item index collection]

namespace Builder

def events (b : Builder) : List BlockEvent :=
  b.blocks.reverse.flatMap OpenBlock.events ++ Node.eventsAll b.nodes.reverse

theorem events_finish (block : OpenBlock) (body : List Node) :
    Node.eventsAll (block.finish body).reverse =
      block.events ++ Node.eventsAll body ++ [.close] := by
  cases block with
  | arm line before done condition conditionLine =>
      simp [OpenBlock.finish, OpenBlock.events, Node.eventsAll_append, Node.eventsAll, Node.events,
        Node.armEvents_concat line done.reverse condition conditionLine body]
  | otherwise line before done =>
      simp [OpenBlock.finish, OpenBlock.events, Node.eventsAll_append, Node.eventsAll, Node.events]
  | loop line before item index collection =>
      simp [OpenBlock.finish, OpenBlock.events, Node.eventsAll_append, Node.eventsAll, Node.events]

theorem events_addEvent {b next : Builder} {event : BlockEvent}
    (hnext : b.addEvent event = .ok next) : next.events = b.events ++ [event] := by
  cases event with
  | leaf line leaf =>
      cases hnext
      simp [events, push, Node.eventsAll_append, Node.eventsAll]
  | openIf line condition =>
      cases hnext
      simp [events, OpenBlock.events, Node.armEvents, Node.laterArmEvents, Node.eventsAll]
  | elif line condition =>
      simp only [addEvent, elif] at hnext
      split at hnext
      next n before done c cl outer hblocks =>
          split at hnext
          · cases hnext
          · cases hnext
            have hbegin := Node.armEvents_begin n done.reverse ⟨c, cl, b.nodes.reverse⟩ condition
              line
            have hbody := Node.armEvents_concat n done.reverse c cl b.nodes.reverse
            simp [events, hblocks, OpenBlock.events, hbegin, hbody, Node.eventsAll]
      · cases hnext
      · cases hnext
  | otherwise =>
      simp only [addEvent, otherwise] at hnext
      split at hnext
      next n before done c cl outer hblocks =>
          cases hnext
          have hbody := Node.armEvents_concat n done.reverse c cl b.nodes.reverse
          simp [events, hblocks, OpenBlock.events, hbody, Node.eventsAll]
      · cases hnext
      · cases hnext
      · cases hnext
  | openEach line item index collection =>
      cases hnext
      simp [events, OpenBlock.events, Node.eventsAll]
  | close =>
      simp only [addEvent, close] at hnext
      split at hnext
      next block outer hblocks =>
          cases hnext
          simp [events, hblocks, events_finish]
      · cases hnext

theorem events_foldlM {b last : Builder} {es : List BlockEvent}
    (hlast : es.foldlM addEvent b = .ok last) : last.events = b.events ++ es := by
  induction es generalizing b with
  | nil =>
      cases hlast
      simp
  | cons event rest ih =>
      rw [List.foldlM_cons, bind_eq_ok_iff] at hlast
      rcases hlast with ⟨next, hnext, hlast⟩
      rw [ih hlast, events_addEvent hnext]
      simp

/-! # What is nested well can be built -/

theorem foldlM_append_of_ok {b next : Builder} {es : List BlockEvent}
    (h : es.foldlM addEvent b = .ok next) (more : List BlockEvent) :
    (es ++ more).foldlM addEvent b = more.foldlM addEvent next := by
  rw [List.foldlM_append, h]
  rfl

theorem foldlM_cons_of_ok {b next : Builder} {event : BlockEvent}
    (h : b.addEvent event = .ok next) (more : List BlockEvent) :
    (event :: more).foldlM addEvent b = more.foldlM addEvent next := by
  rw [List.foldlM_cons, h]
  rfl

/--
What a phrase does to a builder. A body adds nodes to the innermost block. Further arms make
a conditional of which one thing is known: closed, it is a node after those before it.
-/
def Builds (es : List BlockEvent) : BlockPhrase → Prop
  | .body => ∀ b : Builder, ∃ more, es.foldlM addEvent b = .ok ⟨b.blocks, more ++ b.nodes⟩
  | .arms =>
      ∀ line before done condition conditionLine outer nodes, ∃ next node,
        es.foldlM addEvent ⟨.arm line before done condition conditionLine :: outer, nodes⟩ =
          .ok next ∧ next.addEvent .close = .ok ⟨outer, node :: before⟩

theorem builds_of_nested {phrase : BlockPhrase} {es : List BlockEvent} (h : Nested phrase es)
    (hes : ∀ event ∈ es, event.IsComplete) : Builds es phrase := by
  induction h with
  | nothing =>
      intro b
      exact ⟨[], rfl⟩
  | @leaf line leaf rest _ ih =>
      intro b
      rcases ih (by simp_all) (b.push (leaf.node line)) with ⟨more, hmore⟩
      have hleaf : b.addEvent (.leaf line leaf) = .ok (b.push (leaf.node line)) := rfl
      refine ⟨more ++ [leaf.node line], ?_⟩
      rw [foldlM_cons_of_ok hleaf, hmore]
      simp [push]
  | @conditional line condition first others rest _ _ _ ihfirst ihothers ihrest =>
      intro b
      have hopen : b.addEvent (.openIf line condition) =
          .ok ⟨.arm line b.nodes [] condition line :: b.blocks, []⟩ := rfl
      rcases ihfirst (by simp_all) ⟨.arm line b.nodes [] condition line :: b.blocks, []⟩ with
        ⟨body, hbody⟩
      rcases ihothers (by simp_all) line b.nodes [] condition line b.blocks (body ++ []) with
        ⟨next, node, hnext, hclose⟩
      rcases ihrest (by simp_all) ⟨b.blocks, node :: b.nodes⟩ with ⟨more, hmore⟩
      refine ⟨more ++ [node], ?_⟩
      rw [foldlM_cons_of_ok hopen, foldlM_append_of_ok hbody, foldlM_append_of_ok hnext,
        foldlM_cons_of_ok hclose, hmore]
      simp
  | @loop line item index collection inner rest _ _ ihinner ihrest =>
      intro b
      have hopen : b.addEvent (.openEach line item index collection) =
          .ok ⟨.loop line b.nodes item index collection :: b.blocks, []⟩ := rfl
      rcases ihinner (by simp_all) ⟨.loop line b.nodes item index collection :: b.blocks, []⟩ with
        ⟨body, hbody⟩
      have hclose : Builder.addEvent
          ⟨.loop line b.nodes item index collection :: b.blocks, body ++ []⟩ .close =
            .ok ⟨b.blocks,
              .loop line item index collection (body ++ []).reverse :: b.nodes⟩ := rfl
      rcases ihrest (by simp_all) ⟨b.blocks,
        .loop line item index collection (body ++ []).reverse :: b.nodes⟩ with ⟨more, hmore⟩
      refine ⟨more ++ [.loop line item index collection (body ++ []).reverse], ?_⟩
      rw [foldlM_cons_of_ok hopen, foldlM_append_of_ok hbody, foldlM_cons_of_ok hclose, hmore]
      simp
  | noArm =>
      intro line before done condition conditionLine outer nodes
      exact ⟨_, _, rfl, rfl⟩
  | @lastArm body _ ih =>
      intro line before done condition conditionLine outer nodes
      have hopen : Builder.addEvent
          ⟨.arm line before done condition conditionLine :: outer, nodes⟩ .otherwise =
            .ok ⟨.otherwise line before (⟨condition, conditionLine, nodes.reverse⟩ :: done) ::
              outer, []⟩ := rfl
      rcases ih (by simp_all)
        ⟨.otherwise line before (⟨condition, conditionLine, nodes.reverse⟩ :: done) ::
          outer, []⟩ with ⟨last, hlast⟩
      exact ⟨_, _, (foldlM_cons_of_ok hopen body).trans hlast, rfl⟩
  | @nextArm armLine armCondition body others _ _ ihbody ihothers =>
      intro line before done condition conditionLine outer nodes
      have hcondition : armCondition.isEmpty = false := hes _ List.mem_cons_self
      have hopen : Builder.addEvent
          ⟨.arm line before done condition conditionLine :: outer, nodes⟩
            (.elif armLine armCondition) =
              .ok ⟨.arm line before (⟨condition, conditionLine, nodes.reverse⟩ :: done)
                armCondition armLine :: outer, []⟩ := by
        simp [addEvent, elif, hcondition]
      rcases ihbody (by simp_all)
        ⟨.arm line before (⟨condition, conditionLine, nodes.reverse⟩ :: done)
          armCondition armLine :: outer, []⟩ with ⟨arm, harm⟩
      rcases ihothers (by simp_all) line before (⟨condition, conditionLine, nodes.reverse⟩ :: done)
        armCondition armLine outer (arm ++ []) with ⟨next, node, hnext, hclose⟩
      refine ⟨next, node, ?_, hclose⟩
      rw [foldlM_cons_of_ok hopen, foldlM_append_of_ok harm, hnext]

end Builder

/-! # Views -/

namespace View

section Views

variable {text : String} (h : ∀ piece ∈ Piece.ofText text.toList, piece.IsWellFormed)

include h

theorem isComplete_of_mem_events : ∀ event ∈ events text, event.IsComplete := by
  intro event hevent
  rcases List.mem_filterMap.mp hevent with ⟨piece, hpiece, hfound⟩
  rcases h piece hpiece with ⟨found, hother, hcomplete⟩
  cases hfound.symm.trans hother
  exact hcomplete

theorem events_of_parse {nodes : List Node} (hnodes : parse text = .ok nodes) :
    Node.eventsAll nodes = events text := by
  rcases bind_eq_ok_iff.mp hnodes with ⟨last, hfold, hresult⟩
  rw [Builder.foldlM_addPiece_eq_ok_iff h] at hfold
  have hevents := Builder.events_foldlM hfold
  unfold Builder.result at hresult
  split at hresult
  next hblocks =>
      cases hresult
      simpa [Builder.events, hblocks, Builder.empty, Node.eventsAll, events] using hevents
  · cases hresult

theorem exists_parse_of_nested (hnested : Nested .body (events text)) :
    ∃ nodes, parse text = .ok nodes := by
  rcases Builder.builds_of_nested hnested (isComplete_of_mem_events h) .empty with ⟨more, hmore⟩
  have hfold := (Builder.foldlM_addPiece_eq_ok_iff h).mpr hmore
  exact ⟨_, bind_eq_ok_iff.mpr ⟨_, hfold, rfl⟩⟩

end Views

/--
A text whose directives are well formed is a view if and only if its events are nested well.
The nodes of the view then give back the events; else the text has a fault in its structure.
-/
theorem parse_iff_nested {text : String}
    (h : ∀ piece ∈ Piece.ofText text.toList, piece.IsWellFormed) :
    ((∃ nodes, parse text = .ok nodes) ↔ Nested .body (events text)) ∧
      (∀ nodes, parse text = .ok nodes → Node.eventsAll nodes = events text) ∧
      (¬ Nested .body (events text) → ∃ e, parse text = .error e ∧
        ∀ view, (structureError e view).code = "PARSE_STRUCTURE") := by
  have hiff : (∃ nodes, parse text = .ok nodes) ↔ Nested .body (events text) := by
    constructor
    · rintro ⟨nodes, hnodes⟩
      rw [← events_of_parse h hnodes]
      exact Node.nested_eventsAll nodes
    · exact exists_parse_of_nested h
  refine ⟨hiff, fun nodes => events_of_parse h, ?_⟩
  intro hnot
  cases hresult : parse text with
  | ok nodes => exact absurd (hiff.mp ⟨nodes, hresult⟩) hnot
  | error e => exact ⟨e, rfl, fun view => rfl⟩

theorem parse_iff_nested_arms :
    (∀ piece ∈ Piece.ofText
        "a@if (x)@each (y)b@end@elif (z)@if (u)@end@else c@end".toList, piece.IsWellFormed) ∧
      Nested .body (events "a@if (x)@each (y)b@end@elif (z)@if (u)@end@else c@end") := by
  have hwell : ∀ piece ∈ Piece.ofText
      "a@if (x)@each (y)b@end@elif (z)@if (u)@end@else c@end".toList, piece.IsWellFormed := by
    decide
  have hparse : (parse "a@if (x)@each (y)b@end@elif (z)@if (u)@end@else c@end").isOk = true := by
    decide
  exact ⟨hwell, (parse_iff_nested hwell).1.mp (exists_of_isOk hparse)⟩

end View
end Stencil
