import Stencil.Proofs.View.Layout
import Stencil.Proofs.View.Lines

/-!
# Where nodes lie

Each node of a view comes from a part of its text, and a block from a part that holds those of its
bodies. Side by side the nodes cover the whole text. A node keeps the line on which its part
begins, an arm the line of the directive that begins it. A text that is no view is at fault on the
line of one directive: one that is malformed, one that does not fit what stands before it, or the
one that opened the innermost block that never ends.
-/

namespace Stencil

/-! # Nodes at their offsets -/

/-- Literal text from an offset to another, as much of it as stands there together. -/
structure IsRun (text : List Char) (start stop : Nat) : Prop where
  ahead : start < stop
  inside : stop ≤ text.length
  literal : IsLiteral text start stop
  /-- It begins where the text does, or just behind a directive. -/
  begins : start = 0 ∨ ∃ first meaning, Stands text first meaning start
  /-- It ends where the text does, or just before a directive. -/
  ends : stop = text.length ∨ Begins text stop

mutual

/-- A node, with the lines that it keeps, lies from an offset to another. -/
inductive Covers (text : List Char) : Nat → Node → Nat → Prop where
  | text {start stop : Nat} :
      IsRun text start stop →
      Covers text start (.text (lineAt text start) (String.ofList (slice text start stop))) stop
  | interpolation {start stop : Nat} {e : String} :
      Stands text start (.interpolation e) stop →
      Covers text start (.interpolation (lineAt text start) e) stop
  | shorthand {start stop : Nat} {path : String} :
      Stands text start (.shorthand path) stop →
      Covers text start (.shorthand (lineAt text start) path) stop
  | declaration {start stop : Nat} {pattern : Pattern} {e : String} :
      Stands text start (.declaration pattern e) stop →
      Covers text start (.declaration (lineAt text start) pattern e) stop
  | inclusion {start stop : Nat} {path : Text} {data : Option String} :
      Stands text start (.inclusion path data) stop →
      Covers text start (.inclusion (lineAt text start) path data) stop
  | loop {start inner last stop : Nat} {item index collection : String} {body : List Node} :
      Stands text start (.openEach item index collection) inner → Tiles text inner body last →
      Stands text last .close stop →
      Covers text start (.loop (lineAt text start) item index collection body) stop
  | conditional {start last stop : Nat} {branches : List (Branch Node)} :
      Arms text start branches last → Stands text last .close stop →
      Covers text start (.conditional (lineAt text start) branches none) stop
  | otherwise {start turn inner last stop : Nat} {branches : List (Branch Node)}
      {body : List Node} :
      Arms text start branches turn → Stands text turn .otherwise inner →
      Tiles text inner body last → Stands text last .close stop →
      Covers text start (.conditional (lineAt text start) branches (some body)) stop

inductive Tiles (text : List Char) : Nat → List Node → Nat → Prop where
  | nil {start : Nat} : Tiles text start [] start
  | concat {start middle stop : Nat} {nodes : List Node} {node : Node} :
      Tiles text start nodes middle → Covers text middle node stop →
      Tiles text start (nodes ++ [node]) stop

inductive Arms (text : List Char) : Nat → List (Branch Node) → Nat → Prop where
  | first {start inner stop : Nat} {condition : String} {body : List Node} :
      Stands text start (.openIf condition) inner → Tiles text inner body stop →
      Arms text start [⟨condition, lineAt text start, body⟩] stop
  | next {start turn inner stop : Nat} {branches : List (Branch Node)} {condition : String}
      {body : List Node} :
      Arms text start branches turn → Stands text turn (.elif condition) inner →
      Tiles text inner body stop →
      Arms text start (branches ++ [⟨condition, lineAt text turn, body⟩]) stop

end

/-- A block is open: nodes lie in front of it from an origin on, and its last body begins. -/
inductive Opened (text : List Char) (origin : Nat) : OpenBlock → Nat → Nat → Prop where
  | first {start inner : Nat} {before : List Node} {condition : String} :
      Tiles text origin before.reverse start → Stands text start (.openIf condition) inner →
      Opened text origin (.arm (lineAt text start) before [] condition (lineAt text start)) start
        inner
  | next {start turn inner : Nat} {before : List Node} {done : List (Branch Node)}
      {condition : String} :
      Tiles text origin before.reverse start → Arms text start done.reverse turn →
      Stands text turn (.elif condition) inner →
      Opened text origin (.arm (lineAt text start) before done condition (lineAt text turn)) start
        inner
  | otherwise {start turn inner : Nat} {before : List Node} {done : List (Branch Node)} :
      Tiles text origin before.reverse start → Arms text start done.reverse turn →
      Stands text turn .otherwise inner →
      Opened text origin (.otherwise (lineAt text start) before done) start inner
  | loop {start inner : Nat} {before : List Node} {item index collection : String} :
      Tiles text origin before.reverse start →
      Stands text start (.openEach item index collection) inner →
      Opened text origin (.loop (lineAt text start) before item index collection) start inner

inductive Stacked (text : List Char) : List OpenBlock → Nat → Prop where
  | nil : Stacked text [] 0
  | cons {block : OpenBlock} {outer : List OpenBlock} {origin start inner : Nat} :
      Stacked text outer origin → Opened text origin block start inner →
      Stacked text (block :: outer) inner

inductive Underway (text : List Char) : Builder → Nat → Prop where
  | intro {blocks : List OpenBlock} {nodes : List Node} {inner offset : Nat} :
      Stacked text blocks inner → Tiles text inner nodes.reverse offset →
      Underway text ⟨blocks, nodes⟩ offset

/-- The directive at an offset is at fault, the first of the text that is. -/
inductive AtFault (text : List Char) : Nat → StructureFault → Prop where
  | malformed {b : Builder} {offset : Nat} {fault : StructureFault} :
      Underway text b offset → Stumbles text offset fault → AtFault text offset fault
  /-- It does not fit what stands before it. -/
  | misplaced {b : Builder} {offset stop : Nat} {meaning : Directive} {fault : StructureFault} :
      Underway text b offset → Stands text offset meaning stop →
      b.addDirective (lineAt text offset) meaning = .error fault → AtFault text offset fault
  /-- It opened the innermost block of those that are open where the text ends. -/
  | unclosed {block : OpenBlock} {outer : List OpenBlock} {nodes : List Node}
      {origin offset inner : Nat} :
      Stacked text outer origin → Opened text origin block offset inner →
      Tiles text inner nodes text.length → AtFault text offset (.unclosedBlock block.opener)

variable {text : List Char} {start stop : Nat}

/-! # Building keeps nodes where they are -/

theorem Arms.sign {start stop : Nat} {branches : List (Branch Node)} :
    Arms text start branches stop → text[start]? = some '@'
  | .first hopen _ => hopen.sign
  | .next hbefore _ _ => Arms.sign hbefore

namespace Opened

variable {block : OpenBlock} {origin inner : Nat}

theorem line (h : Opened text origin block start inner) : block.line = lineAt text start := by
  cases h <;> rfl

theorem sign (h : Opened text origin block start inner) : text[start]? = some '@' := by
  cases h with
  | first hbefore hopen => exact hopen.sign
  | next hbefore harms hturn => exact harms.sign
  | otherwise hbefore harms hturn => exact harms.sign
  | loop hbefore hopen => exact hopen.sign

theorem arms {line conditionLine : Nat} {before nodes : List Node} {done : List (Branch Node)}
    {condition : String}
    (h : Opened text origin (.arm line before done condition conditionLine) start inner)
    (hnodes : Tiles text inner nodes.reverse stop) :
    line = lineAt text start ∧ Tiles text origin before.reverse start ∧
      Arms text start (⟨condition, conditionLine, nodes.reverse⟩ :: done).reverse stop := by
  rw [List.reverse_cons]
  cases h with
  | first hbefore hopen => exact ⟨rfl, hbefore, .first hopen hnodes⟩
  | next hbefore harms hturn => exact ⟨rfl, hbefore, .next harms hturn hnodes⟩

theorem finish {nodes : List Node} {last : Nat} (h : Opened text origin block start inner)
    (hnodes : Tiles text inner nodes.reverse last) (hclose : Stands text last .close stop) :
    Tiles text origin (block.finish nodes.reverse).reverse stop := by
  cases block with
  | arm line before done condition conditionLine =>
      rcases h.arms hnodes with ⟨rfl, hbefore, harms⟩
      rw [OpenBlock.finish, List.reverse_cons]
      exact .concat hbefore (.conditional harms hclose)
  | otherwise line before done =>
      cases h with
      | otherwise hbefore harms hturn =>
          rw [OpenBlock.finish, List.reverse_cons]
          exact .concat hbefore (.otherwise harms hturn hnodes hclose)
  | loop line before item index collection =>
      cases h with
      | loop hbefore hopen =>
          rw [OpenBlock.finish, List.reverse_cons]
          exact .concat hbefore (.loop hopen hnodes hclose)

end Opened

namespace Underway

variable {b next : Builder}

theorem push {node : Node} (h : Underway text b start) (hnode : Covers text start node stop) :
    Underway text (b.push node) stop := by
  cases h with
  | intro hblocks hnodes =>
      refine .intro hblocks ?_
      rw [List.reverse_cons]
      exact .concat hnodes hnode

theorem elif {condition : String} (h : Underway text b start)
    (hturn : Stands text start (.elif condition) stop)
    (hstep : b.elif (lineAt text start) condition = .ok next) : Underway text next stop := by
  cases h with
  | @intro blocks nodes inner offset hblocks hnodes =>
      unfold Builder.elif at hstep
      split at hstep
      next n before done c cl outer heq =>
          split at hstep
          · cases hstep
          · cases hstep
            dsimp only at heq
            subst heq
            cases hblocks with
            | cons houter hopened =>
                rcases hopened.arms hnodes with ⟨rfl, hbefore, harms⟩
                exact .intro (.cons houter (.next hbefore harms hturn)) .nil
      · cases hstep
      · cases hstep

theorem otherwise (h : Underway text b start) (hturn : Stands text start .otherwise stop)
    (hstep : b.otherwise = .ok next) : Underway text next stop := by
  cases h with
  | @intro blocks nodes inner offset hblocks hnodes =>
      unfold Builder.otherwise at hstep
      split at hstep
      next n before done c cl outer heq =>
          cases hstep
          dsimp only at heq
          subst heq
          cases hblocks with
          | cons houter hopened =>
              rcases hopened.arms hnodes with ⟨rfl, hbefore, harms⟩
              exact .intro (.cons houter (.otherwise hbefore harms hturn)) .nil
      · cases hstep
      · cases hstep
      · cases hstep

theorem close (h : Underway text b start) (hclose : Stands text start .close stop)
    (hstep : b.close = .ok next) : Underway text next stop := by
  cases h with
  | @intro blocks nodes inner offset hblocks hnodes =>
      cases hblocks with
      | nil => cases hstep
      | cons houter hopened =>
          cases hstep
          exact .intro houter (hopened.finish hnodes hclose)

theorem addDirective {meaning : Directive} (h : Underway text b start)
    (hstands : Stands text start meaning stop)
    (hstep : b.addDirective (lineAt text start) meaning = .ok next) :
    Underway text next stop := by
  cases meaning with
  | interpolation e =>
      cases hstep
      exact h.push (.interpolation hstands)
  | shorthand path =>
      cases hstep
      exact h.push (.shorthand hstands)
  | declaration pattern e =>
      cases hstep
      exact h.push (.declaration hstands)
  | inclusion path data =>
      cases hstep
      exact h.push (.inclusion hstands)
  | openIf condition =>
      cases hstep
      cases h with
      | intro hblocks hnodes => exact .intro (.cons hblocks (.first hnodes hstands)) .nil
  | openEach item index collection =>
      cases hstep
      cases h with
      | intro hblocks hnodes => exact .intro (.cons hblocks (.loop hnodes hstands)) .nil
  | elif condition => exact h.elif hstands hstep
  | otherwise => exact h.otherwise hstands hstep
  | close => exact h.close hstands hstep

end Underway

/-! # A run over all pieces -/

/-- If literal text comes next, it begins where the text does or just behind a directive. -/
def MayBegin (text : List Char) (start : Nat) (pieces : List Piece) : Prop :=
  (∀ piece ∈ pieces.head?, piece.isText = false) ∨
    start = 0 ∨ ∃ first meaning, Stands text first meaning start

section Runs

variable {b last : Builder} {pieces : List Piece}

theorem Laid.isRun {line : Nat} {source : List Char} (hahead : start < stop)
    (hinside : stop ≤ text.length) (hliteral : IsLiteral text start stop)
    (hhead : ∀ piece ∈ pieces.head?, piece.isText = false) (hrest : Laid text stop pieces)
    (hbegin : MayBegin text start (.text line source :: pieces)) : IsRun text start stop where
  ahead := hahead
  inside := hinside
  literal := hliteral
  begins := by
    rcases hbegin with hnot | hbegin
    · cases hnot _ rfl
    · exact hbegin
  ends := hrest.ends hhead

theorem Laid.underway (hlaid : Laid text start pieces) (hbegin : MayBegin text start pieces)
    (hb : Underway text b start) (h : pieces.foldlM Builder.addPiece b = .ok last) :
    Underway text last text.length := by
  induction hlaid generalizing b with
  | done hend =>
      cases h
      exact hend ▸ hb
  | text hahead hinside hliteral hhead hrest ih =>
      rw [List.foldlM_cons, bind_eq_ok_iff] at h
      rcases h with ⟨next, hstep, hfold⟩
      cases hstep
      have hrun := Laid.isRun hahead hinside hliteral hhead hrest hbegin
      exact ih (.inl hhead) (hb.push (.text hrun)) hfold
  | directive hstands hrest ih =>
      rw [List.foldlM_cons, bind_eq_ok_iff] at h
      rcases h with ⟨next, hstep, hfold⟩
      refine ih (.inr (.inr ⟨_, _, hstands⟩)) (hb.addDirective hstands ?_) hfold
      unfold Builder.addPiece at hstep
      dsimp only at hstep
      split at hstep
      next found hfound =>
          cases hstep
          exact hfound
      · cases hstep
  | fault hstumbles => cases h

theorem Laid.atFault {e : StructureError} (hlaid : Laid text start pieces)
    (hbegin : MayBegin text start pieces) (hb : Underway text b start)
    (h : pieces.foldlM Builder.addPiece b = .error e) :
    ∃ offset, text[offset]? = some '@' ∧ AtFault text offset e.fault ∧
      e.line = lineAt text offset := by
  induction hlaid generalizing b with
  | done hend => cases h
  | text hahead hinside hliteral hhead hrest ih =>
      rw [List.foldlM_cons, bind_eq_error_iff] at h
      rcases h with hstep | ⟨next, hstep, hfold⟩
      · cases hstep
      · cases hstep
        have hrun := Laid.isRun hahead hinside hliteral hhead hrest hbegin
        exact ih (.inl hhead) (hb.push (.text hrun)) hfold
  | directive hstands hrest ih =>
      rw [List.foldlM_cons, bind_eq_error_iff] at h
      unfold Builder.addPiece at h
      dsimp only at h
      rcases h with hstep | ⟨next, hstep, hfold⟩
      · split at hstep
        · cases hstep
        next fault hfault =>
            cases hstep
            exact ⟨_, hstands.sign, .misplaced hb hstands hfault, rfl⟩
      · split at hstep
        next found hfound =>
            cases hstep
            exact ih (.inr (.inr ⟨_, _, hstands⟩)) (hb.addDirective hstands hfound) hfold
        · cases hstep
  | fault hstumbles =>
      rw [List.foldlM_cons, bind_eq_error_iff] at h
      rcases h with hstep | ⟨next, hstep, hfold⟩
      · cases hstep
        exact ⟨_, hstumbles.sign, .malformed hb hstumbles, rfl⟩
      · cases hstep

end Runs

/-! # Inside the nodes -/

mutual

theorem Covers.inside {start stop : Nat} {node inner : Node} :
    Covers text start node stop → inner ∈ node.walk →
      ∃ first last, Covers text first inner last
  | .text hrun, hinner => by
      cases List.mem_singleton.mp hinner
      exact ⟨_, _, .text hrun⟩
  | .interpolation hstands, hinner => by
      cases List.mem_singleton.mp hinner
      exact ⟨_, _, .interpolation hstands⟩
  | .shorthand hstands, hinner => by
      cases List.mem_singleton.mp hinner
      exact ⟨_, _, .shorthand hstands⟩
  | .declaration hstands, hinner => by
      cases List.mem_singleton.mp hinner
      exact ⟨_, _, .declaration hstands⟩
  | .inclusion hstands, hinner => by
      cases List.mem_singleton.mp hinner
      exact ⟨_, _, .inclusion hstands⟩
  | .loop hopen hbody hclose, hinner => by
      rcases Node.mem_walk_loop.mp hinner with rfl | hinner
      · exact ⟨_, _, .loop hopen hbody hclose⟩
      · exact Tiles.inside hbody hinner
  | .conditional harms hclose, hinner => by
      rcases Node.mem_walk_conditional.mp hinner with rfl | ⟨branch, hbranch, hinner⟩ |
        ⟨body, hbody, -⟩
      · exact ⟨_, _, .conditional harms hclose⟩
      · exact Arms.inside harms hbranch hinner
      · cases hbody
  | .otherwise harms hturn hbody hclose, hinner => by
      rcases Node.mem_walk_conditional.mp hinner with rfl | ⟨branch, hbranch, hinner⟩ |
        ⟨body, hsame, hinner⟩
      · exact ⟨_, _, .otherwise harms hturn hbody hclose⟩
      · exact Arms.inside harms hbranch hinner
      · cases hsame
        exact Tiles.inside hbody hinner

theorem Tiles.inside {start stop : Nat} {nodes : List Node} {inner : Node} :
    Tiles text start nodes stop → inner ∈ Node.walkAll nodes →
      ∃ first last, Covers text first inner last
  | .nil, hinner => by cases hinner
  | .concat hbefore hlast, hinner => by
      rcases Node.mem_walkAll.mp hinner with ⟨node, hnode, hinside⟩
      rcases List.mem_append.mp hnode with hnode | hnode
      · exact Tiles.inside hbefore (Node.mem_walkAll.mpr ⟨node, hnode, hinside⟩)
      · cases List.mem_singleton.mp hnode
        exact Covers.inside hlast hinside

theorem Arms.inside {start stop : Nat} {branches : List (Branch Node)} {branch : Branch Node}
    {inner : Node} :
    Arms text start branches stop → branch ∈ branches → inner ∈ Node.walkAll branch.body →
      ∃ first last, Covers text first inner last
  | .first _ hbody, hbranch, hinner => by
      cases List.mem_singleton.mp hbranch
      exact Tiles.inside hbody hinner
  | .next hbefore _ hbody, hbranch, hinner => by
      rcases List.mem_append.mp hbranch with hbranch | hbranch
      · exact Arms.inside hbefore hbranch hinner
      · cases List.mem_singleton.mp hbranch
        exact Tiles.inside hbody hinner

end

def Node.branches : Node → List (Branch Node)
  | conditional _ branches _ => branches
  | _ => []

inductive BeginsArm (text : List Char) (start : Nat) (condition : String) : Prop where
  | first {inner : Nat} :
      Stands text start (.openIf condition) inner → BeginsArm text start condition
  | next {inner : Nat} :
      Stands text start (.elif condition) inner → BeginsArm text start condition

theorem Arms.exists_begin {start stop : Nat} {branches : List (Branch Node)}
    {branch : Branch Node} :
    Arms text start branches stop → branch ∈ branches →
      ∃ offset, BeginsArm text offset branch.condition ∧ branch.line = lineAt text offset
  | .first hopen _, hbranch => by
      cases List.mem_singleton.mp hbranch
      exact ⟨_, .first hopen, rfl⟩
  | .next hbefore hturn _, hbranch => by
      rcases List.mem_append.mp hbranch with hbranch | hbranch
      · exact Arms.exists_begin hbefore hbranch
      · cases List.mem_singleton.mp hbranch
        exact ⟨_, .next hturn, rfl⟩

namespace Covers

variable {node : Node}

theorem line (h : Covers text start node stop) : node.line = lineAt text start := by
  cases h <;> rfl

theorem exists_begin {branch : Branch Node} (h : Covers text start node stop)
    (hbranch : branch ∈ node.branches) :
    ∃ offset, BeginsArm text offset branch.condition ∧ branch.line = lineAt text offset := by
  cases h with
  | conditional harms hclose => exact harms.exists_begin hbranch
  | otherwise harms hturn hbody hclose => exact harms.exists_begin hbranch
  | _ => cases hbranch

end Covers

/-! # The lines of a view -/

namespace View

theorem tiles_of_parse {text : String} {nodes : List Node} (h : parse text = .ok nodes) :
    Tiles text.toList 0 nodes text.toList.length := by
  rcases bind_eq_ok_iff.mp h with ⟨last, hfold, hresult⟩
  have hlast := (Laid.ofText text.toList).underway (.inr (.inl rfl)) (.intro .nil .nil) hfold
  cases hlast with
  | intro hblocks hnodes =>
      cases hblocks with
      | nil =>
          cases hresult
          exact hnodes
      | cons houter hopened => cases hresult

theorem atFault_of_parse {text : String} {e : StructureError} (h : parse text = .error e) :
    ∃ offset, text.toList[offset]? = some '@' ∧ AtFault text.toList offset e.fault ∧
      e.line = lineAt text.toList offset := by
  have hlaid := Laid.ofText text.toList
  rcases bind_eq_error_iff.mp h with hfold | ⟨last, hfold, hresult⟩
  · exact hlaid.atFault (.inr (.inl rfl)) (.intro .nil .nil) hfold
  · have hlast := hlaid.underway (.inr (.inl rfl)) (.intro .nil .nil) hfold
    cases hlast with
    | intro hblocks hnodes =>
        cases hblocks with
        | nil => cases hresult
        | cons houter hopened =>
            cases hresult
            exact ⟨_, hopened.sign, .unclosed houter hopened hnodes, hopened.line⟩

/--
The nodes of a view cover its text, and each keeps the line on which its first character stands,
each arm that of the directive that begins it. A text that is no view is at fault on the line of
the at sign of one directive.
-/
theorem parse_on_lines (text : String) :
    (∀ nodes, parse text = .ok nodes →
      Tiles text.toList 0 nodes text.toList.length ∧
        ∀ node ∈ Node.walkAll nodes,
          (∃ start stop, Covers text.toList start node stop ∧
            node.line = lineAt text.toList start) ∧
          ∀ branch ∈ node.branches, ∃ start, BeginsArm text.toList start branch.condition ∧
            branch.line = lineAt text.toList start) ∧
      ∀ e, parse text = .error e →
        ∃ offset, text.toList[offset]? = some '@' ∧ AtFault text.toList offset e.fault ∧
          e.line = lineAt text.toList offset ∧
            ∀ view, (structureError e view).code = "PARSE_STRUCTURE" ∧
              (structureError e view).line = some (.number (lineAt text.toList offset)) := by
  constructor
  · intro nodes h
    have htiles := tiles_of_parse h
    refine ⟨htiles, ?_⟩
    intro node hnode
    rcases htiles.inside hnode with ⟨start, stop, hcovers⟩
    exact ⟨⟨start, stop, hcovers, hcovers.line⟩, fun branch => hcovers.exists_begin⟩
  · intro e h
    rcases atFault_of_parse h with ⟨offset, hsign, hfault, hline⟩
    refine ⟨offset, hsign, hfault, hline, ?_⟩
    intro view
    rw [← hline]
    cases view with
    | none => exact ⟨rfl, rfl⟩
    | some name => exact ⟨rfl, rfl⟩

theorem parse_on_lines_open :
    ((parse "a\n@if (x\n)b@elif (y)\n@end@z").map fun nodes =>
        (Node.walkAll nodes).map Node.line) = .ok [1, 2, 3, 3, 4] ∧
      (∃ nodes, parse "a\n@if (x\n)b@elif (y)\n@end@z" = .ok nodes ∧
        Tiles "a\n@if (x\n)b@elif (y)\n@end@z".toList 0 nodes 27) ∧
        ∃ e, parse "a\n@each (x)\n@if (y\n)b" = .error e ∧ e.fault = .unclosedBlock "@if" ∧
          e.line = 3 ∧ ∃ offset, AtFault "a\n@each (x)\n@if (y\n)b".toList offset e.fault ∧
            e.line = lineAt "a\n@each (x)\n@if (y\n)b".toList offset := by
  have hlines : ((parse "a\n@if (x\n)b@elif (y)\n@end@z").map fun nodes =>
      (Node.walkAll nodes).map Node.line) = .ok [1, 2, 3, 3, 4] := by
    decide +kernel
  have hfault : (parse "a\n@each (x)\n@if (y\n)b").map (fun _ => ()) =
      .error ⟨.unclosedBlock "@if", 3⟩ := by
    decide +kernel
  refine ⟨hlines, ?_, ?_⟩
  · rcases map_eq_ok_iff.mp hlines with ⟨nodes, hparse, -⟩
    exact ⟨nodes, hparse, ((parse_on_lines _).1 nodes hparse).1⟩
  · cases hparse : parse "a\n@each (x)\n@if (y\n)b" with
    | ok nodes =>
        rw [hparse] at hfault
        cases hfault
    | error e =>
        rw [hparse] at hfault
        cases hfault
        rcases (parse_on_lines _).2 _ hparse with ⟨offset, -, hfault, hline, -⟩
        exact ⟨_, rfl, rfl, rfl, offset, hfault, hline⟩

end View
end Stencil
