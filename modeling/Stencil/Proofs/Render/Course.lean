import Stencil.Proofs.Render.Keeping
import Stencil.Render.Include

/-!
# The course of a render

A render can be looked at step by step. What is left to do lies on a row of tasks, and the
views being rendered are a stack on which an include puts its view, to take it off again when
the view has been rendered or given up. Nothing bounds the number of steps beforehand.

Whatever the views and the data are, each step keeps the stack in order: no view lies on it
twice, and it is as deep as there are includes under way.
-/

namespace Stencil

/-! # The parts of a render -/

def chosenBody (host : Host) (scope : Nat) (otherwise : Option (List Node)) :
    List (Branch Node) → Rendering (List Node)
  | [] => return otherwise.getD []
  | branch :: rest => do
      let condition ← Rendering.valueOf host scope branch.condition
      if condition.truthy then return branch.body
      else chosenBody host scope otherwise rest

def beginLoop (host : Host) (scope : Nat) (item index source : String) : Rendering Loop := do
  let collection ← Rendering.valueOf host scope source
  Rendering.onStore fun σ => (Loop.begin σ item index collection, σ)

structure Entered where
  path : Text
  scope : Nat
  nodes : List Node

def enterInclude (setup : RenderSetup) (site : Site) (inclusion : Inclusion) :
    Rendering (Option Entered) := do
  match ← includeTarget setup site inclusion with
  | none => return none
  | some (path, data) =>
      if site.stack.contains path || setup.maxDepth ≤ site.depth then
        rejectCycle site inclusion path
      else
        match ← includeNodes setup site inclusion path with
        | none => return none
        | some nodes => do
            Rendering.addInclude path
            let scope ← Rendering.onStore fun σ => σ.child inclusion.scope data none
            return some ⟨path, scope, nodes⟩

/-! # Steps -/

inductive Task where
  | nodes (view : Option Text) (scope : Nat) (nodes : List Node)
  | rounds (view : Option Text) (scope : Nat) (body : List Node) (loop : Loop)
  /-- The end of an include, at which its view leaves the stack. -/
  | leave (path : Text)

def Task.included? : Task → Option Text
  | leave path => some path
  | _ => none

/-- A render between two of its steps. -/
structure Course where
  /-- What is left to do, the next task first. -/
  tasks : List Task
  /-- The views being rendered, outermost first. -/
  stack : List Text
  depth : Nat
  output : Text
  /-- Why the render is being given up. -/
  trouble : Option Trouble
  state : RenderState

namespace Course

def perform {α : Type} (c : Course) (action : Rendering α) (go : α → Course → Course) : Course :=
  match action c.state with
  | (.ok a, after) => go a { c with state := after }
  | (.error trouble, after) => { c with state := after, trouble := some trouble }

def write (text : Text) (c : Course) : Course :=
  { c with output := c.output ++ text }

def push (task : Task) (c : Course) : Course :=
  { c with tasks := task :: c.tasks }

def enter (entered : Option Entered) (c : Course) : Course :=
  match entered with
  | none => c
  | some e =>
      { c with
        tasks := .nodes (some e.path) e.scope e.nodes :: .leave e.path :: c.tasks
        stack := c.stack ++ [e.path]
        depth := c.depth + 1 }

def visit (setup : RenderSetup) (view : Option Text) (scope : Nat) (node : Node) (c : Course) :
    Course :=
  match node with
  | .conditional _ branches otherwise =>
      c.perform (chosenBody setup.host scope otherwise branches) fun body =>
        push (.nodes view scope body)
  | .loop _ item index source body =>
      c.perform (beginLoop setup.host scope item index source) fun loop =>
        push (.rounds view scope body loop)
  | .inclusion line path data =>
      c.perform (enterInclude setup ⟨view, c.stack, c.depth⟩ ⟨line, path, data, scope⟩) enter
  | leaf => c.perform (renderNode setup.host (fun _ => return "") scope leaf) write

def next? (setup : RenderSetup) (c : Course) : Option Course :=
  match c.tasks, c.trouble with
  | [], _ => none
  | .leave _ :: rest, _ =>
      some { c with tasks := rest, stack := c.stack.dropLast, depth := c.depth - 1 }
  | _ :: rest, some _ => some { c with tasks := rest }
  | .nodes _ _ [] :: rest, none => some { c with tasks := rest }
  | .nodes view scope (node :: others) :: rest, none =>
      some (visit setup view scope node { c with tasks := .nodes view scope others :: rest })
  | .rounds view scope body loop :: rest, none =>
      match loop.next? c.state.store with
      | none => some { c with tasks := rest }
      | some (round, later) =>
          some (perform { c with tasks := .rounds view scope body later :: rest }
            (openRound scope round) fun inner => push (.nodes view inner body))

/-- What a step is: a task is over, a node is visited, or a round begins. -/
inductive Steps (setup : RenderSetup) (c : Course) : Course → Prop where
  | ends {task : Task} {rest : List Task} {stack : List Text} {depth : Nat}
      (htasks : c.tasks = task :: rest) :
      Steps setup c { c with tasks := rest, stack := stack, depth := depth }
  | visits {view : Option Text} {scope : Nat} {node : Node} {others : List Node}
      {rest : List Task} (htasks : c.tasks = .nodes view scope (node :: others) :: rest)
      (htrouble : c.trouble = none) :
      Steps setup c
        (visit setup view scope node { c with tasks := .nodes view scope others :: rest })
  | begins {view : Option Text} {scope : Nat} {body : List Node} {loop later : Loop}
      {round : Round} {rest : List Task}
      (htasks : c.tasks = .rounds view scope body loop :: rest) (htrouble : c.trouble = none)
      (hround : loop.next? c.state.store = some (round, later)) :
      Steps setup c (perform { c with tasks := .rounds view scope body later :: rest }
        (openRound scope round) fun inner => push (.nodes view inner body))

theorem steps_of_next? {setup : RenderSetup} {c next : Course} (h : c.next? setup = some next) :
    Steps setup c next := by
  rcases c with ⟨tasks, stack, depth, output, trouble, s⟩
  cases tasks with
  | nil => cases h
  | cons task rest =>
      cases task with
      | leave path =>
          cases h
          exact .ends rfl
      | nodes view scope nodes =>
          cases trouble with
          | some t =>
              cases h
              exact .ends rfl
          | none =>
              cases nodes <;> cases h
              · exact .ends rfl
              · exact .visits rfl rfl
      | rounds view scope body loop =>
          cases trouble with
          | some t =>
              cases h
              exact .ends rfl
          | none =>
              unfold next? at h
              dsimp only at h
              split at h <;> cases h
              · exact .ends rfl
              next hround => exact .begins rfl rfl hround

def outcome (c : Course) : Except Trouble Text × RenderState :=
  match c.trouble with
  | none => (.ok c.output, c.state)
  | some trouble => (.error trouble, c.state)

def start (view : Option Text) (nodes : List Node) (s : RenderState) : Course where
  tasks := [.nodes view 0 nodes]
  stack := (Text.said view).toList
  depth := 0
  output := ""
  trouble := none
  state := s

inductive Leads (setup : RenderSetup) : Course → Course → Prop where
  | refl {c : Course} : Leads setup c c
  | step {c next last : Course} :
      c.next? setup = some next →
      Leads setup next last →
      Leads setup c last

theorem Leads.trans {setup : RenderSetup} {c next last : Course} (h : Leads setup c next)
    (hlast : Leads setup next last) : Leads setup c last := by
  induction h with
  | refl => exact hlast
  | step hstep _ ih => exact .step hstep (ih hlast)

/-- Renders that cannot go on forever. -/
def Ends (setup : RenderSetup) (c : Course) : Prop :=
  Acc (fun next c => Course.next? setup c = some next) c

theorem ends_of_leads {setup : RenderSetup} {c last : Course} (h : Leads setup c last)
    (hlast : last.next? setup = none) : Ends setup c := by
  induction h with
  | refl =>
      constructor
      intro next hnext
      rw [hlast] at hnext
      cases hnext
  | step hstep _ ih =>
      constructor
      intro next hnext
      cases hstep.symm.trans hnext
      exact ih hlast

/-- Renders that go on for at least a number of steps. -/
inductive Lasts (setup : RenderSetup) : Nat → Course → Prop
  | now {c : Course} : Lasts setup 0 c
  | step {n : Nat} {c next : Course} :
      c.next? setup = some next → Lasts setup n next → Lasts setup (n + 1) c

theorem Lasts.mono {setup : RenderSetup} {n m : Nat} {c : Course} (h : Lasts setup n c)
    (hle : m ≤ n) : Lasts setup m c := by
  induction h generalizing m with
  | now =>
      cases Nat.le_zero.mp hle
      exact .now
  | step hstep _ ih =>
      cases m with
      | zero => exact .now
      | succ m => exact .step hstep (ih (Nat.le_of_succ_le_succ hle))

theorem Lasts.of_leads {setup : RenderSetup} {n : Nat} {c next : Course}
    (hleads : Leads setup c next) (h : Lasts setup n next) : Lasts setup n c := by
  induction hleads with
  | refl => exact h
  | step hstep _ ih => exact (Lasts.step hstep (ih h)).mono (Nat.le_succ n)

theorem Ends.exists_not_lasts {setup : RenderSetup} {c : Course} (h : Ends setup c) :
    ∃ n, ¬ Lasts setup n c := by
  induction h with
  | intro c _ ih =>
      cases hnext : c.next? setup with
      | none =>
          refine ⟨1, fun hlasts => ?_⟩
          cases hlasts with
          | step hstep _ => cases hnext.symm.trans hstep
      | some next =>
          rcases ih next hnext with ⟨n, hn⟩
          refine ⟨n + 1, fun hlasts => ?_⟩
          cases hlasts with
          | step hstep hrest =>
              cases hnext.symm.trans hstep
              exact hn hrest

/-! # Includes under way -/

/-- The views of the includes that are being rendered, outermost first. -/
def underWay (c : Course) : List Text :=
  c.tasks.reverse.filterMap Task.included?

structure Stays (c next : Course) : Prop where
  stack : next.stack = c.stack
  depth : next.depth = c.depth
  underWay : next.underWay = c.underWay

theorem stays_perform {α : Type} {c : Course} {action : Rendering α} {go : α → Course → Course}
    (hgo : ∀ a later, Stays later (go a later)) : Stays c (c.perform action go) := by
  unfold perform
  split
  next a after _ =>
      have hstays := hgo a { c with state := after }
      exact ⟨hstays.stack, hstays.depth, hstays.underWay⟩
  · exact ⟨rfl, rfl, rfl⟩

theorem stays_write (text : Text) (c : Course) : Stays c (c.write text) :=
  ⟨rfl, rfl, rfl⟩

theorem stays_push {task : Task} (htask : task.included? = none) (c : Course) :
    Stays c (c.push task) := by
  refine ⟨rfl, rfl, ?_⟩
  simp [underWay, push, htask]

theorem enterInclude_ok {setup : RenderSetup} {site : Site} {inclusion : Inclusion}
    {s after : RenderState} {e : Entered}
    (h : enterInclude setup site inclusion s = (.ok (some e), after)) :
    e.path ∉ site.stack ∧ site.depth < setup.maxDepth := by
  rw [enterInclude, bind_def] at h
  split at h
  next target s₁ _ =>
      cases target with
      | none => cases h
      | some found =>
          dsimp only at h
          split at h
          · cases h
          next hcond =>
              rw [bind_def] at h
              split at h
              next nodes s₂ _ =>
                  cases nodes with
                  | none => cases h
                  | some nodes =>
                      cases h
                      simpa using hcond
              · cases h
  · cases h

structure Enters (setup : RenderSetup) (c next : Course) (path : Text) : Prop where
  stack : next.stack = c.stack ++ [path]
  depth : next.depth = c.depth + 1
  underWay : next.underWay = c.underWay ++ [path]
  isNew : path ∉ c.stack
  bounded : c.depth < setup.maxDepth

structure Leaves (c next : Course) (path : Text) : Prop where
  stack : next.stack = c.stack.dropLast
  depth : next.depth = c.depth - 1
  underWay : c.underWay = next.underWay ++ [path]

theorem visit_cases (setup : RenderSetup) (view : Option Text) (scope : Nat) (node : Node)
    (c : Course) :
    Stays c (visit setup view scope node c) ∨
      ∃ path, Enters setup c (visit setup view scope node c) path := by
  cases node with
  | conditional line branches otherwise =>
      rw [visit]
      exact .inl (stays_perform fun body => stays_push rfl)
  | loop line item index source body =>
      rw [visit]
      exact .inl (stays_perform fun loop => stays_push rfl)
  | inclusion line path data =>
      rw [visit, perform]
      split
      next entered after hentered =>
          cases entered with
          | none => exact .inl ⟨rfl, rfl, rfl⟩
          | some e =>
              rcases enterInclude_ok hentered with ⟨hnew, hdepth⟩
              refine .inr ⟨e.path, rfl, rfl, ?_, hnew, hdepth⟩
              simp [underWay, enter, Task.included?]
      · exact .inl ⟨rfl, rfl, rfl⟩
  | _ =>
      unfold visit
      exact .inl (stays_perform stays_write)

theorem underWay_cons {task : Task} (htask : task.included? = none) {rest : List Task}
    {stack : List Text} {depth : Nat} {output : Text} {trouble : Option Trouble}
    {s : RenderState} :
    underWay ⟨task :: rest, stack, depth, output, trouble, s⟩ =
      underWay ⟨rest, stack, depth, output, trouble, s⟩ := by
  simp [underWay, htask]

theorem next?_cases {setup : RenderSetup} {c next : Course} (h : c.next? setup = some next) :
    Stays c next ∨ ∃ path, Enters setup c next path ∨ Leaves c next path := by
  rcases c with ⟨tasks, stack, depth, output, trouble, s⟩
  cases tasks with
  | nil => cases h
  | cons task rest =>
      cases task with
      | leave path =>
          cases h
          refine .inr ⟨path, .inr ⟨rfl, rfl, ?_⟩⟩
          simp [underWay, Task.included?]
      | nodes view scope nodes =>
          have hdrop : ∀ more, underWay ⟨.nodes view scope more :: rest, stack, depth, output,
              trouble, s⟩ = underWay ⟨rest, stack, depth, output, trouble, s⟩ :=
            fun more => underWay_cons rfl
          cases trouble with
          | some t =>
              cases h
              exact .inl ⟨rfl, rfl, (hdrop nodes).symm⟩
          | none =>
              cases nodes with
              | nil =>
                  cases h
                  exact .inl ⟨rfl, rfl, (hdrop []).symm⟩
              | cons node others =>
                  cases h
                  have hsame := (hdrop others).trans (hdrop (node :: others)).symm
                  rcases visit_cases setup view scope node
                    ⟨.nodes view scope others :: rest, stack, depth, output, none, s⟩ with
                      hstays | ⟨path, henters⟩
                  · exact .inl ⟨hstays.stack, hstays.depth, hstays.underWay.trans hsame⟩
                  · refine .inr ⟨path, .inl ?_⟩
                    exact { henters with underWay := by rw [henters.underWay, hsame] }
      | rounds view scope body loop =>
          have hdrop : ∀ more, underWay ⟨.rounds view scope body more :: rest, stack, depth,
              output, trouble, s⟩ = underWay ⟨rest, stack, depth, output, trouble, s⟩ :=
            fun more => underWay_cons rfl
          cases trouble with
          | some t =>
              cases h
              exact .inl ⟨rfl, rfl, (hdrop loop).symm⟩
          | none =>
              unfold next? at h
              dsimp only at h
              split at h <;> cases h
              · exact .inl ⟨rfl, rfl, (hdrop loop).symm⟩
              next round later _ =>
                  have hsame := (hdrop later).trans (hdrop loop).symm
                  exact .inl ⟨rfl, rfl, (underWay_cons rfl).trans hsame⟩

/-! # The stack -/

/-- What holds of the stack between any two steps. The first views lie on it all the time. -/
structure InOrder (setup : RenderSetup) (first : List Text) (c : Course) : Prop where
  stack : c.stack = first ++ c.underWay
  depth : c.depth = c.underWay.length
  nodup : c.stack.Nodup
  bounded : c.depth ≤ setup.maxDepth

section Order

variable {setup : RenderSetup} {first : List Text} {c next last : Course}

theorem InOrder.step (h : InOrder setup first c) (hnext : c.next? setup = some next) :
    InOrder setup first next := by
  rcases next?_cases hnext with hstays | ⟨path, henters | hleaves⟩
  · constructor
    · rw [hstays.stack, hstays.underWay, h.stack]
    · rw [hstays.depth, hstays.underWay, h.depth]
    · rw [hstays.stack]
      exact h.nodup
    · rw [hstays.depth]
      exact h.bounded
  · constructor
    · rw [henters.stack, henters.underWay, h.stack, List.append_assoc]
    · rw [henters.depth, henters.underWay, h.depth, List.length_append]
      rfl
    · rw [henters.stack, List.nodup_append]
      refine ⟨h.nodup, by simp, ?_⟩
      rintro a ha b hb rfl
      cases List.mem_singleton.mp hb
      exact henters.isNew ha
    · rw [henters.depth]
      exact henters.bounded
  · have hstack : c.stack = first ++ next.underWay ++ [path] := by
      rw [h.stack, hleaves.underWay, List.append_assoc]
    have hdrop : next.stack = first ++ next.underWay := by
      rw [hleaves.stack, hstack, List.dropLast_concat]
    have hdepth : c.depth = next.underWay.length + 1 := by
      rw [h.depth, hleaves.underWay, List.length_append, List.length_singleton]
    constructor
    · exact hdrop
    · rw [hleaves.depth, hdepth, Nat.add_sub_cancel]
    · have hnodup := h.nodup
      rw [hstack, ← hdrop] at hnodup
      exact (List.nodup_append.mp hnodup).1
    · rw [hleaves.depth]
      exact Nat.le_trans (Nat.sub_le _ _) h.bounded

theorem InOrder.leads (h : InOrder setup first c) (hlast : Leads setup c last) :
    InOrder setup first last := by
  induction hlast with
  | refl => exact h
  | step hstep _ ih => exact ih (h.step hstep)

theorem inOrder_start (setup : RenderSetup) (view : Option Text) (nodes : List Node)
    (s : RenderState) : InOrder setup (Text.said view).toList (start view nodes s) := by
  refine ⟨?_, rfl, ?_, Nat.zero_le _⟩
  · simp [start, underWay, Task.included?]
  · show (Text.said view).toList.Nodup
    cases Text.said view <;> simp

end Order

end Course
end Stencil
