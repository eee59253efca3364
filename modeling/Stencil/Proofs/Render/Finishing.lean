import Mathlib
import Stencil.Proofs.Render.Growing
import Stencil.Proofs.Render.Isolation

/-!
# How renders come to an end

However views include each other, a render has nothing left to do after some steps, as long as
nothing lengthens the lists that its loops go through. It then has ended in the text or the trouble
in which rendering the nodes ends, and every view it put on the stack has been taken off again. The
same holds of every include on the way.

A function of the host that lengthens a list can keep a loop going forever.
-/

namespace Stencil

/-! # Renders taken apart -/

theorem renderNode_conditional (host : Host) (enter : Inclusion → Rendering Text) (scope line : Nat)
    (branches : List (Branch Node)) (otherwise : Option (List Node)) :
    renderNode host enter scope (.conditional line branches otherwise) =
      chosenBody host scope otherwise branches >>= renderAll host enter scope := by
  rw [renderNode.eq_def]
  dsimp only
  induction branches with
  | nil =>
      rw [renderBranches, chosenBody, pure_bind, pure_bind]
      cases otherwise with
      | none => exact (renderAll.eq_1 host enter scope).symm
      | some body => rfl
  | cons branch rest ih =>
      rw [renderBranches, chosenBody, bind_assoc, bind_assoc]
      congr 1
      funext condition
      cases condition.truthy with
      | true => simp
      | false => simpa using ih

theorem renderNode_loop (host : Host) (enter : Inclusion → Rendering Text) (scope line : Nat)
    (item index source : String) (body : List Node) :
    renderNode host enter scope (.loop line item index source body) =
      beginLoop host scope item index source >>= fun loop =>
        renderRounds (fun inner => renderAll host enter inner body) scope
          (loop.count + host.patience) loop := by
  rw [renderNode, beginLoop, bind_assoc]

theorem rejectCycle_bind {α β : Type} (site : Site) (inclusion : Inclusion) (path : Text)
    (next : α → Rendering β) :
    rejectCycle site inclusion path >>= next = rejectCycle site inclusion path := by
  rw [rejectCycle, rejectCycle, bind_assoc]
  rfl

def renderEntered (setup : RenderSetup) (left : Nat) (site : Site) :
    Option Entered → Rendering Text
  | none => return ""
  | some e =>
      renderAll setup.host (renderInclude setup left (site.enter e.path)) e.scope e.nodes

theorem renderInclude_eq (setup : RenderSetup) (left : Nat) (site : Site) (inclusion : Inclusion)
    (h : left + site.depth = setup.maxDepth) :
    renderInclude setup left site inclusion =
      enterInclude setup site inclusion >>= renderEntered setup (left - 1) site := by
  cases left with
  | zero =>
      have hdeep : setup.maxDepth ≤ site.depth := by omega
      rw [renderInclude, enterInclude, bind_assoc]
      congr 1
      funext target
      cases target with
      | none => rfl
      | some found => simp [hdeep, rejectCycle_bind]
  | succ left =>
      have hdeep : ¬ setup.maxDepth ≤ site.depth := by omega
      rw [renderInclude, enterInclude, bind_assoc]
      congr 1
      funext target
      cases target with
      | none => rfl
      | some found =>
          rcases found with ⟨path, data⟩
          dsimp only
          cases hcontains : site.stack.contains path with
          | true => simp [rejectCycle_bind]
          | false =>
              simp only [hdeep, decide_false, Bool.or_false, Bool.false_eq_true, if_false,
                bind_assoc, Nat.add_sub_cancel]
              congr 1
              funext nodes
              cases nodes with
              | none => rfl
              | some nodes =>
                  simp only [bind_assoc, pure_bind]
                  rfl

/-! # Coming to the end of a task -/

def Site.course (site : Site) (tasks : List Task) (output : Text) (s : RenderState) : Course :=
  ⟨tasks, site.stack, site.depth, output, none, s⟩

def Site.failing (site : Site) (tasks : List Task) (output : Text) (trouble : Trouble)
    (s : RenderState) : Course :=
  ⟨tasks, site.stack, site.depth, output, some trouble, s⟩

namespace Course

/--
From a course, a render comes to some tasks in the way in which a run has ended: with its text
behind the output so far, or given up for its trouble. Stack and depth are those of the site.
-/
def Comes (setup : RenderSetup) (site : Site) (c : Course) (tasks : List Task) (output : Text) :
    Except Trouble Text × RenderState → Prop
  | (.ok text, after) => Leads setup c (site.course tasks (output ++ text) after)
  | (.error trouble, after) =>
      ∃ written, Leads setup c (site.failing tasks written trouble after)

/--
A render comes to some tasks as a run has ended, or lists may get longer and the run was not
followed to an end. Then the render goes on for at least a number of steps.
-/
def ComesIfFollowed (setup : RenderSetup) (site : Site) (steps : Nat) (c : Course)
    (tasks : List Task) (output : Text) (run : Except Trouble Text × RenderState) : Prop :=
  (run.1 = .error .unending ∧ ¬ setup.host.LengthensNothing ∧ Lasts setup steps c) ∨
    Comes setup site c tasks output run

/-- Whether a render gets from some tasks to others by what an action does, if it is followed. -/
structure Deals (setup : RenderSetup) (site : Site) (tasks others : List Task)
    (action : Rendering Text) : Prop where
  comes : ∀ rest output s,
    ComesIfFollowed setup site setup.host.patience (site.course (tasks ++ rest) output s)
      (others ++ rest) output (action s)

section Deals

variable {setup : RenderSetup} {site : Site} {tasks others rest : List Task} {output : Text}
  {steps : Nat} {c next : Course} {run : Except Trouble Text × RenderState}

theorem Comes.of_leads (h : Leads setup c next) (hnext : Comes setup site next rest output run) :
    Comes setup site c rest output run := by
  rcases run with ⟨_ | text, after⟩
  · rcases hnext with ⟨written, hwritten⟩
    exact ⟨written, h.trans hwritten⟩
  · exact h.trans hnext

namespace ComesIfFollowed

theorem of_leads (h : Leads setup c next)
    (hnext : ComesIfFollowed setup site steps next rest output run) :
    ComesIfFollowed setup site steps c rest output run :=
  hnext.imp (fun ⟨hrun, hhost, hlasts⟩ => ⟨hrun, hhost, hlasts.of_leads h⟩) (.of_leads h)

theorem mono {more : Nat} (h : ComesIfFollowed setup site more c rest output run)
    (hle : steps ≤ more) : ComesIfFollowed setup site steps c rest output run :=
  h.imp_left fun ⟨hrun, hhost, hlasts⟩ => ⟨hrun, hhost, hlasts.mono hle⟩

theorem step (hstep : c.next? setup = some next)
    (hnext : ComesIfFollowed setup site steps next rest output run) :
    ComesIfFollowed setup site (steps + 1) c rest output run :=
  hnext.imp (fun ⟨hrun, hhost, hlasts⟩ => ⟨hrun, hhost, .step hstep hlasts⟩)
    (.of_leads (.step hstep .refl))

end ComesIfFollowed

theorem ComesIfFollowed.leads {text : Text} {after : RenderState}
    (h : ComesIfFollowed setup site steps c rest output (.ok text, after)) :
    Leads setup c (site.course rest (output ++ text) after) := by
  rcases h with ⟨hrun, -⟩ | hleads
  · cases hrun
  · exact hleads

theorem leads_failing {task : Task} (htask : task.included? = none) (trouble : Trouble)
    (s : RenderState) :
    Leads setup (site.failing (task :: rest) output trouble s)
      (site.failing rest output trouble s) := by
  cases task with
  | nodes view scope nodes => exact .step rfl .refl
  | rounds view scope body loop => exact .step rfl .refl
  | leave path => cases htask

theorem ComesIfFollowed.seq {task : Task} {first second : Rendering Text} {s : RenderState}
    (htask : task.included? = none)
    (hfirst : ComesIfFollowed setup site steps c (task :: rest) output (first s))
    (hsecond : ∀ a after, first s = (.ok a, after) →
      ComesIfFollowed setup site steps (site.course (task :: rest) (output ++ a) after) rest
        (output ++ a) (second after)) :
    ComesIfFollowed setup site steps c rest output ((do
      let a ← first
      let b ← second
      return a ++ b : Rendering Text) s) := by
  rw [bind_def]
  generalize first s = run at hfirst hsecond
  rcases run with ⟨trouble | a, after⟩
  · rcases hfirst with ⟨hrun, hlasts⟩ | ⟨written, hwritten⟩
    · cases hrun
      exact .inl ⟨rfl, hlasts⟩
    · exact .inr ⟨written, hwritten.trans (leads_failing htask _ _)⟩
  · apply ComesIfFollowed.of_leads hfirst.leads
    have hcomes := hsecond a after rfl
    dsimp only
    rw [bind_def]
    generalize second after = run at hcomes
    rcases run with ⟨trouble | b, last⟩
    · rcases hcomes with ⟨hrun, hlasts⟩ | hcomes
      · cases hrun
        exact .inl ⟨rfl, hlasts⟩
      · exact .inr hcomes
    · refine .inr ?_
      show Leads setup _ (site.course rest (output ++ (a ++ b)) last)
      rw [← Text.append_assoc]
      exact hcomes.leads

theorem Deals.seq {task : Task} {first second : Rendering Text} (htask : task.included? = none)
    (hfirst : Deals setup site tasks [task] first) (hsecond : Deals setup site [task] [] second) :
    Deals setup site tasks [] (do
      let a ← first
      let b ← second
      return a ++ b) where
  comes rest output s := (hfirst.comes rest output s).seq htask fun a after _ =>
    hsecond.comes rest (output ++ a) after

theorem perform_course {α : Type} (site : Site) (tasks : List Task) (output : Text)
    (s : RenderState) (action : Rendering α) (go : α → Course → Course) :
    (site.course tasks output s).perform action go =
      match action s with
      | (.ok a, after) => go a (site.course tasks output after)
      | (.error trouble, after) => site.failing tasks output trouble after :=
  rfl

theorem Deals.of_perform {α : Type} {action : Rendering α} {go : α → Course → Course}
    {next : α → Rendering Text}
    (hstep : ∀ rest output s, (site.course (tasks ++ rest) output s).next? setup =
      some ((site.course (others ++ rest) output s).perform action go))
    (hgo : ∀ a before s, action before = (.ok a, s) → ∀ rest output,
      ComesIfFollowed setup site setup.host.patience (go a (site.course (others ++ rest) output s))
        (others ++ rest) output (next a s)) :
    Deals setup site tasks others (action >>= next) := by
  constructor
  intro rest output s
  have hnext := hstep rest output s
  have hresult := fun a after h => hgo a s after h rest output
  rw [perform_course] at hnext
  rw [bind_def]
  generalize action s = run at hnext hresult
  rcases run with ⟨_ | a, after⟩
  · exact .inr ⟨output, .step hnext .refl⟩
  · exact (hresult a after rfl).of_leads (.step hnext .refl)

end Deals

/-! # Nodes and rounds -/

section Nodes

variable {setup : RenderSetup} {site : Site} {enter : Inclusion → Rendering Text}

structure Dealt (setup : RenderSetup) (site : Site) (enter : Inclusion → Rendering Text)
    (nodes : List Node) : Prop where
  deals : ∀ scope, Deals setup site [.nodes site.view scope nodes] []
    (renderAll setup.host enter scope nodes)
  keeps : setup.host.LengthensNothing → ∀ scope,
    Rendering.Changes Store.NoLonger (renderAll setup.host enter scope nodes)

section Rounds

variable {body : List Node} {scope : Nat} {loop later : Loop} {round : Round} {rest : List Task}
  {output : Text} {s : RenderState}

theorem leads_done (h : loop.next? s.store = none) :
    Leads setup (site.course (.rounds site.view scope body loop :: rest) output s)
      (site.course rest (output ++ "") s) := by
  refine .step ?_ .refl
  rw [next?]
  dsimp only [Site.course]
  rw [h]
  exact congrArg (fun output => some (site.course rest output s)) (Text.append_empty output).symm

theorem comes_round (hbody : Dealt setup site enter body)
    (h : loop.next? s.store = some (round, later)) :
    ∃ next, (site.course (.rounds site.view scope body loop :: rest) output s).next? setup =
        some next ∧
      ComesIfFollowed setup site setup.host.patience next
        (.rounds site.view scope body later :: rest) output
        (Rendering.alone (fun inner => renderAll setup.host enter inner body) scope round s) := by
  refine ⟨_, ?_, (hbody.deals _).comes (.rounds site.view scope body later :: rest) output _⟩
  rw [next?]
  dsimp only [Site.course]
  rw [h]
  rfl

theorem Lasts.of_round {steps : Nat} {text : Text} {after : RenderState}
    (hbody : Dealt setup site enter body) (hround : loop.next? s.store = some (round, later))
    (halone : Rendering.alone (fun inner => renderAll setup.host enter inner body) scope round s =
      (.ok text, after))
    (h : Lasts setup steps
      (site.course (.rounds site.view scope body later :: rest) (output ++ text) after)) :
    Lasts setup (steps + 1) (site.course (.rounds site.view scope body loop :: rest) output s) := by
  rcases @comes_round setup site enter body scope loop later round rest output s hbody hround
    with ⟨next, hnext, hcomes⟩
  rw [halone] at hcomes
  exact .step hnext (h.of_leads hcomes.leads)

/--
A render gets past a loop round by round. It is not given up before it has gone through as many
rounds as the loop is followed, and not at all while the list keeps no longer than that.
-/
theorem comes_rounds (hbody : Dealt setup site enter body) (left : Nat) (loop : Loop) {steps : Nat}
    (hsteps : steps ≤ setup.host.patience) (hleft : steps ≤ left) (output : Text) (s : RenderState)
    (hwithin : setup.host.LengthensNothing → loop.Within s.store left) :
    ComesIfFollowed setup site steps (site.course (.rounds site.view scope body loop :: rest)
      output s) rest output
      (renderRounds (fun inner => renderAll setup.host enter inner body) scope left loop s) := by
  induction left generalizing loop steps output s with
  | zero =>
      cases hround : loop.next? s.store with
      | none =>
          rw [Rendering.renderRounds_done hround]
          exact .inr (leads_done hround)
      | some found =>
          rw [Rendering.renderRounds_stuck hround]
          refine .inl ⟨rfl, fun hhost => ?_, ?_⟩
          · rcases (hwithin hhost).next hround with ⟨fewer, hfewer, -⟩
            cases hfewer
          · cases Nat.le_zero.mp hleft
            exact .now
  | succ left ih =>
      cases hround : loop.next? s.store with
      | none =>
          rw [Rendering.renderRounds_done hround]
          exact .inr (leads_done hround)
      | some found =>
          rcases found with ⟨round, later⟩
          rcases @comes_round setup site enter body scope loop later round rest output s hbody
            hround with ⟨next, hnext, hfirst⟩
          have hfewer : steps - 1 ≤ setup.host.patience := Nat.le_trans (Nat.sub_le steps 1) hsteps
          -- A body that lengthens no list leaves fewer elements to come than there were.
          have hall := (hfirst.mono hfewer).seq rfl fun a after hafter =>
            ih later hfewer (Nat.sub_le_of_le_add hleft) (output ++ a) after fun hhost => by
              rcases (hwithin hhost).next hround with ⟨fewer, hfewer, hlater⟩
              cases hfewer
              have hopen : Rendering.Changes Store.NoLonger (openRound scope round) :=
                fun _ => Store.noLonger_of_shared rfl
              have hkept := hopen.bind Store.goesOn_noLonger (hbody.keeps hhost) s
              rw [← Rendering.alone, hafter] at hkept
              exact hlater.mono hkept
          rw [Rendering.renderRounds_next hround]
          exact (hall.step hnext).mono (Nat.le_add_of_sub_le (Nat.le_refl _))

end Rounds

theorem chosenBody_ok {host : Host} {scope : Nat} {otherwise : Option (List Node)}
    {branches : List (Branch Node)} {before s : RenderState} {body : List Node}
    (h : chosenBody host scope otherwise branches before = (.ok body, s)) :
    body = [] ∨ body ∈ otherwise ∨ ∃ branch ∈ branches, branch.body = body := by
  induction branches generalizing before with
  | nil =>
      cases h
      cases otherwise with
      | none => exact .inl rfl
      | some found => exact .inr (.inl rfl)
  | cons branch rest ih =>
      rw [chosenBody, bind_def] at h
      split at h
      next condition after _ =>
          split at h
          · cases h
            exact .inr (.inr ⟨branch, List.mem_cons_self, rfl⟩)
          · rcases ih h with hnil | hother | ⟨found, hfound, hbody⟩
            · exact .inl hnil
            · exact .inr (.inl hother)
            · exact .inr (.inr ⟨found, List.mem_cons_of_mem _ hfound, hbody⟩)
      · cases h

theorem deals_nil (scope : Nat) :
    Deals setup site [.nodes site.view scope []] [] (renderAll setup.host enter scope []) := by
  constructor
  intro rest output s
  rw [renderAll]
  refine .inr ?_
  show Leads setup _ (site.course rest (output ++ Text.ofString "") s)
  rw [Text.append_empty]
  exact .step rfl .refl

theorem Deals.of_visit {α : Type} {node : Node} {scope : Nat} {others : List Node}
    {action : Rendering α} {go : α → Course → Course} {next : α → Rendering Text}
    (hvisit : ∀ tasks output s, visit setup site.view scope node (site.course tasks output s) =
      (site.course tasks output s).perform action go)
    (hgo : ∀ a before s, action before = (.ok a, s) → ∀ rest output,
      ComesIfFollowed setup site setup.host.patience
        (go a (site.course (.nodes site.view scope others :: rest) output s))
        (.nodes site.view scope others :: rest) output (next a s)) :
    Deals setup site [.nodes site.view scope (node :: others)] [.nodes site.view scope others]
      (action >>= next) := by
  have hstep : ∀ rest output s,
      (site.course ([.nodes site.view scope (node :: others)] ++ rest) output s).next? setup =
        some ((site.course ([.nodes site.view scope others] ++ rest) output s).perform
          action go) := by
    intro rest output s
    rw [← hvisit]
    rfl
  exact Deals.of_perform hstep hgo

theorem deals_leaf {node : Node} {scope : Nat} {others : List Node}
    (hvisit : ∀ c, visit setup site.view scope node c =
      c.perform (renderNode setup.host enter scope node) write) :
    Deals setup site [.nodes site.view scope (node :: others)] [.nodes site.view scope others]
      (renderNode setup.host enter scope node) := by
  rw [← bind_pure (renderNode setup.host enter scope node)]
  apply Deals.of_visit (fun tasks output s => hvisit _)
  intro text before s _ rest output
  exact .inr .refl

structure Passes (setup : RenderSetup) (site : Site) (enter : Inclusion → Rendering Text) :
    Prop where
  deals : ∀ line path data scope others,
    Deals setup site [.nodes site.view scope (.inclusion line path data :: others)]
      [.nodes site.view scope others] (enter ⟨line, path, data, scope⟩)
  keeps : setup.host.LengthensNothing → ∀ inclusion,
    Rendering.Changes Store.NoLonger (enter inclusion)

theorem Passes.dealt (henter : Passes setup site enter) (nodes : List Node)
    (hdeals : ∀ scope, Deals setup site [.nodes site.view scope nodes] []
      (renderAll setup.host enter scope nodes)) : Dealt setup site enter nodes where
  deals := hdeals
  keeps hhost scope := .renderAll (Rendering.allows_noLonger hhost) (henter.keeps hhost) nodes scope

theorem within_beginLoop {host : Host} {scope : Nat} {item index source : String}
    {before s : RenderState} {loop : Loop}
    (h : beginLoop host scope item index source before = (.ok loop, s)) (more : Nat) :
    loop.Within s.store (loop.count + more) := by
  rw [beginLoop, bind_def] at h
  split at h
  · cases h
    exact Loop.within_begin _ item index _ more
  · cases h

mutual

theorem deals_node (henter : Passes setup site enter) : (node : Node) → (scope : Nat) →
    (others : List Node) →
    Deals setup site [.nodes site.view scope (node :: others)] [.nodes site.view scope others]
      (renderNode setup.host enter scope node)
  | .text _ _, _, _ => by
      apply deals_leaf
      intro c
      simp only [visit, renderNode]
  | .interpolation _ _, _, _ => by
      apply deals_leaf
      intro c
      simp only [visit, renderNode]
  | .shorthand _ _, _, _ => by
      apply deals_leaf
      intro c
      simp only [visit, renderNode]
  | .declaration _ _ _, _, _ => by
      apply deals_leaf
      intro c
      simp only [visit, renderNode]
  | .conditional line branches otherwise, scope, others => by
      have hvisit : ∀ tasks output s, visit setup site.view scope
          (.conditional line branches otherwise) (site.course tasks output s) =
            (site.course tasks output s).perform (chosenBody setup.host scope otherwise branches)
              fun body => push (.nodes site.view scope body) := by
        intro tasks output s
        rw [visit]
      rw [renderNode_conditional]
      apply Deals.of_visit hvisit
      intro body before s hbody rest output
      have hdeals : Deals setup site [.nodes site.view scope body] []
          (renderAll setup.host enter scope body) := by
        rcases chosenBody_ok hbody with rfl | hother | ⟨branch, hbranch, rfl⟩
        · exact deals_nil scope
        · exact deals_otherwise henter otherwise body hother scope
        · exact deals_branches henter branches branch hbranch scope
      exact hdeals.comes (.nodes site.view scope others :: rest) output s
  | .loop line item index source body, scope, others => by
      have hvisit : ∀ tasks output s, visit setup site.view scope
          (.loop line item index source body) (site.course tasks output s) =
            (site.course tasks output s).perform (beginLoop setup.host scope item index source)
              fun loop => push (.rounds site.view scope body loop) := by
        intro tasks output s
        rw [visit]
      rw [renderNode_loop]
      apply Deals.of_visit hvisit
      intro loop before s hloop rest output
      exact comes_rounds (henter.dealt body (deals_nodes henter body)) _ loop (Nat.le_refl _)
        (Nat.le_add_left _ _) output s fun _ => within_beginLoop hloop _
  | .inclusion line path data, scope, others => by
      rw [renderNode]
      exact henter.deals line path data scope others

theorem deals_nodes (henter : Passes setup site enter) : (nodes : List Node) → (scope : Nat) →
    Deals setup site [.nodes site.view scope nodes] [] (renderAll setup.host enter scope nodes)
  | [], scope => deals_nil scope
  | node :: rest, scope => by
      rw [renderAll]
      exact .seq rfl (deals_node henter node scope rest) (deals_nodes henter rest scope)

theorem deals_otherwise (henter : Passes setup site enter) :
    (otherwise : Option (List Node)) → ∀ body ∈ otherwise, ∀ scope : Nat,
    Deals setup site [.nodes site.view scope body] [] (renderAll setup.host enter scope body)
  | none, _, hbody => by cases hbody
  | some found, body, hbody => by
      have hfound : found = body := Option.some.inj hbody
      rw [← hfound]
      exact deals_nodes henter found

theorem deals_branches (henter : Passes setup site enter) :
    (branches : List (Branch Node)) → ∀ branch ∈ branches, ∀ scope : Nat,
    Deals setup site [.nodes site.view scope branch.body] []
      (renderAll setup.host enter scope branch.body)
  | [], _, hbranch => by cases hbranch
  | first :: rest, branch, hbranch => by
      rcases List.mem_cons.mp hbranch with hfirst | hrest
      · rw [hfirst]
        exact deals_nodes henter first.body
      · exact deals_branches henter rest branch hrest

end

end Nodes

/-! # Includes -/

theorem comes_entered {setup : RenderSetup} {left : Nat} {site : Site} {entered : Option Entered}
    {rest : List Task}
    (hnodes : ∀ e ∈ entered, Deals setup (site.enter e.path)
      [.nodes (some e.path) e.scope e.nodes] []
      (renderAll setup.host (renderInclude setup left (site.enter e.path)) e.scope e.nodes))
    (output : Text) (s : RenderState) :
    ComesIfFollowed setup site setup.host.patience (enter entered (site.course rest output s))
      rest output (renderEntered setup left site entered s) := by
  cases entered with
  | none =>
      refine .inr ?_
      show Leads setup _ (site.course rest (output ++ Text.ofString "") s)
      rw [Text.append_empty]
      exact .refl
  | some e =>
      have hcomes := (hnodes e rfl).comes (.leave e.path :: rest) output s
      have hleave : ∀ written trouble after,
          Leads setup ⟨.leave e.path :: rest, site.stack ++ [e.path], site.depth + 1, written,
            trouble, after⟩ ⟨rest, site.stack, site.depth, written, trouble, after⟩ := by
        intro written trouble after
        refine .step rfl ?_
        rw [List.dropLast_concat, Nat.add_sub_cancel]
        exact .refl
      rw [renderEntered]
      generalize renderAll setup.host (renderInclude setup left (site.enter e.path)) e.scope
        e.nodes s = run at hcomes
      rcases run with ⟨trouble | text, after⟩
      · rcases hcomes with ⟨hrun, hlasts⟩ | ⟨written, hwritten⟩
        · exact .inl ⟨hrun, hlasts⟩
        · exact .inr ⟨written, hwritten.trans (hleave _ _ _)⟩
      · exact .inr (hcomes.leads.trans (hleave _ _ _))

theorem visit_inclusion (setup : RenderSetup) (site : Site) (inclusion : Inclusion)
    (tasks : List Task) (output : Text) (s : RenderState) :
    visit setup site.view inclusion.scope
        (.inclusion inclusion.line inclusion.path inclusion.data) (site.course tasks output s) =
      (site.course tasks output s).perform (enterInclude setup site inclusion) enter := by
  rw [visit]
  rfl

theorem passes_renderInclude (setup : RenderSetup) (left : Nat) :
    ∀ site : Site, left + site.depth = setup.maxDepth →
      Passes setup site (renderInclude setup left site) := by
  have hkeeps : ∀ left site, setup.host.LengthensNothing → ∀ inclusion,
      Rendering.Changes Store.NoLonger (renderInclude setup left site inclusion) :=
    fun left site hhost => .renderInclude (Rendering.allows_noLonger hhost) left site
  induction left with
  | zero =>
      intro site hdepth
      refine ⟨fun line path data scope others => ?_, hkeeps 0 site⟩
      rw [renderInclude_eq setup 0 site _ hdepth]
      apply Deals.of_visit (visit_inclusion setup site ⟨line, path, data, scope⟩)
      intro entered before s hentered rest output
      apply comes_entered
      rintro e rfl
      have hbounded := (enterInclude_ok hentered).2
      omega
  | succ left ih =>
      intro site hdepth
      refine ⟨fun line path data scope others => ?_, hkeeps (left + 1) site⟩
      rw [renderInclude_eq setup (left + 1) site _ hdepth]
      apply Deals.of_visit (visit_inclusion setup site ⟨line, path, data, scope⟩)
      intro entered before s _ rest output
      apply comes_entered
      intro e _
      apply deals_nodes
      apply ih
      simp only [Site.enter]
      omega

/-! # Renders -/

theorem Comes.exists_leads {setup : RenderSetup} {site : Site} {c : Course} {tasks : List Task}
    {output : Text} {run : Except Trouble Text × RenderState}
    (h : Comes setup site c tasks output run) :
    ∃ last, Leads setup c last ∧ last.tasks = tasks := by
  rcases run with ⟨_ | text, after⟩
  · rcases h with ⟨written, hwritten⟩
    exact ⟨_, hwritten, rfl⟩
  · exact ⟨_, h, rfl⟩

theorem exists_outcome (setup : RenderSetup) (view : Option Text) (nodes : List Node)
    (s : RenderState) :
    (∃ last, Leads setup (start view nodes s) last ∧ last.tasks = [] ∧
      last.outcome = renderView setup view nodes s) ∨
    ¬ setup.host.LengthensNothing ∧ (renderView setup view nodes s).1 = .error .unending ∧
      Lasts setup setup.host.patience (start view nodes s) := by
  have hcomes := (deals_nodes (passes_renderInclude setup setup.maxDepth (.top view) rfl) nodes
    0).comes [] "" s
  rw [renderView]
  generalize renderAll setup.host (renderInclude setup setup.maxDepth (Site.top view)) 0 nodes s =
    run at hcomes
  rcases run with ⟨_ | text, after⟩
  · rcases hcomes with ⟨hrun, hhost, hlasts⟩ | ⟨written, hwritten⟩
    · exact .inr ⟨hhost, hrun, hlasts⟩
    · exact .inl ⟨_, hwritten, rfl, rfl⟩
  · exact .inl ⟨_, hcomes.leads, rfl, rfl⟩

section Past

variable {setup : RenderSetup} {first : List Text} {c past : Course} {view : Option Text}
  {inclusion : Inclusion} {others : List Node} {rest : List Task}

theorem InOrder.comesIfFollowed (h : InOrder setup first c) (htrouble : c.trouble = none)
    (htasks : c.tasks = .nodes view inclusion.scope
      (.inclusion inclusion.line inclusion.path inclusion.data :: others) :: rest) :
    ComesIfFollowed setup ⟨view, c.stack, c.depth⟩ setup.host.patience c
      (.nodes view inclusion.scope others :: rest) c.output
      (renderInclude setup (setup.maxDepth - c.depth) ⟨view, c.stack, c.depth⟩ inclusion
        c.state) := by
  have hpasses := passes_renderInclude setup (setup.maxDepth - c.depth)
    ⟨view, c.stack, c.depth⟩ (Nat.sub_add_cancel h.bounded)
  have hcomes := (hpasses.deals inclusion.line inclusion.path inclusion.data inclusion.scope
    others).comes rest c.output c.state
  rcases c with ⟨tasks, stack, depth, output, trouble, s⟩
  dsimp only at htrouble htasks
  subst htrouble htasks
  exact hcomes

theorem InOrder.restored (h : InOrder setup first c) (hpast : Leads setup c past)
    (htasks : c.tasks = .nodes view inclusion.scope
      (.inclusion inclusion.line inclusion.path inclusion.data :: others) :: rest)
    (hlater : past.tasks = .nodes view inclusion.scope others :: rest) :
    past.stack = c.stack ∧ past.depth = c.depth := by
  have hunder : past.underWay = c.underWay := by
    rw [underWay, underWay, htasks, hlater, List.reverse_cons, List.reverse_cons,
      List.filterMap_append, List.filterMap_append]
    rfl
  have horder := h.leads hpast
  exact ⟨by rw [horder.stack, h.stack, hunder], by rw [horder.depth, h.depth, hunder]⟩

end Past

/--
Every render comes to its end, in what rendering the nodes ends in, unless functions of the host
lengthen the lists that loops go through. Such a render may go on forever, and it is not given up
before it has gone on for as many steps as the host has patience. Between any two steps no view
lies on the stack twice, and the stack is as deep as there are includes under way, but never too
deep. Past an include, the stack and its depth are what they were before.
-/
theorem ends_in_order (setup : RenderSetup) (view : Option Text) (nodes : List Node)
    (s : RenderState) :
    ((Ends setup (start view nodes s) ∧
        ∃ last, Leads setup (start view nodes s) last ∧ last.next? setup = none ∧
          last.outcome = renderView setup view nodes s ∧
          last.stack = (Text.said view).toList ∧ last.depth = 0) ∨
      ¬ setup.host.LengthensNothing ∧ (renderView setup view nodes s).1 = .error .unending ∧
        Lasts setup setup.host.patience (start view nodes s)) ∧
    ∀ c, Leads setup (start view nodes s) c →
      (c.stack.Nodup ∧ c.stack = (Text.said view).toList ++ c.underWay ∧
        c.depth = c.underWay.length ∧ c.depth ≤ setup.maxDepth) ∧
      ∀ inner scope line path data others rest, c.trouble = none →
        c.tasks = .nodes inner scope (.inclusion line path data :: others) :: rest →
        ((∃ past, Leads setup c past ∧ past.tasks = .nodes inner scope others :: rest) ∨
          ¬ setup.host.LengthensNothing ∧ Lasts setup setup.host.patience c) ∧
        ∀ past, Leads setup c past → past.tasks = .nodes inner scope others :: rest →
          past.stack = c.stack ∧ past.depth = c.depth := by
  have hstart := inOrder_start setup view nodes s
  constructor
  · refine (exists_outcome setup view nodes s).imp_left ?_
    rintro ⟨last, hlast, htasks, houtcome⟩
    have hdone : last.next? setup = none := by
      rw [next?, htasks]
    have horder := hstart.leads hlast
    have hnone : last.underWay = [] := by
      rw [underWay, htasks]
      rfl
    refine ⟨ends_of_leads hlast hdone, last, hlast, hdone, houtcome, ?_, ?_⟩
    · rw [horder.stack, hnone, List.append_nil]
    · rw [horder.depth, hnone]
      rfl
  · intro c hc
    have horder := hstart.leads hc
    refine ⟨⟨horder.nodup, horder.stack, horder.depth, horder.bounded⟩, ?_⟩
    intro inner scope line path data others rest htrouble htasks
    let inclusion : Inclusion := ⟨line, path, data, scope⟩
    have hcomes := @InOrder.comesIfFollowed setup _ c inner inclusion others rest horder htrouble
      htasks
    refine ⟨?_, fun past hpast hlater =>
      @InOrder.restored setup _ c past inner inclusion others rest horder hpast htasks hlater⟩
    exact hcomes.symm.imp Comes.exists_leads And.right

def endless : RenderSetup where
  host := .none
  source := MemoryViews.source "html" [("page.html", "again @include('./page')")]
  maxDepth := 2

theorem ends_in_order_endless :
    let begin := start none [.inclusion 1 "page" none] ⟨.ofData [] [], none, [], []⟩
    Leads endless begin begin ∧ begin.trouble = none ∧
      begin.tasks = [.nodes none 0 [.inclusion 1 "page" none]] ∧ Ends endless begin ∧
      ∃ past, Leads endless begin past ∧ past.tasks = [.nodes none 0 []] ∧
        past.stack = begin.stack ∧ past.depth = begin.depth := by
  intro begin
  have hhost : endless.host.LengthensNothing := fun σ _ _ _ => Store.noLonger_of_shared rfl
  have horder := ends_in_order endless none [.inclusion 1 "page" none]
    ⟨.ofData [] [], none, [], []⟩
  have hinclude := (horder.2 begin .refl).2 none 0 1 "page" none [] [] rfl rfl
  have hends := (horder.1.resolve_right fun h => h.1 hhost).1
  rcases hinclude.1.resolve_right fun h => h.1 hhost with ⟨past, hpast, htasks⟩
  exact ⟨.refl, rfl, rfl, hends, past, hpast, htasks, hinclude.2 past hpast htasks⟩

/-! # A loop that lengthens its list -/

def pushing : Host where
  run σ _ _ args :=
    match args with
    | [.shared place, item] =>
        { result := .ok .null
          changes := [(place, .list ((σ.items? (.shared place)).getD [] ++ [item]))] }
    | _ => { result := .error .wrongArguments }

def pushFunction : Callable := .host "push" false

def pushed (σ : Store) (items : List Value) (item : Value) : Store :=
  { σ with
    shared := σ.shared.modify 0 fun container => container.become (.list (items ++ [item]))
    calls := ⟨pushFunction, [.shared 0, item]⟩ :: σ.calls }

theorem items?_pushed {σ : Store} {items : List Value} (h : σ.items? (.shared 0) = some items)
    (item : Value) : (pushed σ items item).items? (.shared 0) = some (items ++ [item]) := by
  have hshape := Store.shape_of_items? h
  rw [Store.shape] at hshape
  split at hshape
  next found hfound =>
      cases hshape
      rw [Store.items?, Store.shape, pushed, Array.getElem?_modify, if_pos rfl, hfound]
      rfl
  · cases hshape
  · cases hshape

theorem textOf_push (s : RenderState) {scope : Nat} {items : List Value}
    (hpush : s.store.lookup scope "push" = .callable pushFunction)
    (hxs : s.store.lookup scope "xs" = .shared 0)
    (hitems : s.store.items? (.shared 0) = some items) :
    Rendering.textOf pushing scope "push(xs, x)" s =
      (.ok (some "null"), { s with store := pushed s.store items (s.store.lookup scope "x") }) := by
  have hcompiled : Expr.compile "push(xs, x)" =
      .ok (.call (.name "push") [.name "xs", .name "x"]) := by
    cbv
  have hcallee : (Expr.name "push").eval pushing scope s.store =
      (.ok (.callable pushFunction), s.store) := by
    rw [← hpush]
    rfl
  have hargs : evalList pushing scope [.name "xs", .name "x"] s.store =
      (.ok [.shared 0, s.store.lookup scope "x"], s.store) := by
    rw [← hxs]
    rfl
  have hcall : evalSource pushing scope "push(xs, x)" s.store =
      (.ok .null, pushed s.store items (s.store.lookup scope "x")) := by
    rw [evalSource, hcompiled]
    dsimp only
    rw [Expr.eval, bind_def, hcallee]
    dsimp only
    rw [bind_def, hargs, pushFunction]
    dsimp only [Value.call, Callable.apply, pushing]
    rw [hitems]
    rfl
  have htext : textOfSource pushing scope "push(xs, x)" s.store =
      (.ok (some "null"), pushed s.store items (s.store.lookup scope "x")) := by
    rw [textOfSource, bind_def, hcall]
    rfl
  rw [Rendering.textOf, Rendering.recover, bind_def, Rendering.onStore, htext]
  rfl

def pushAll : List Node :=
  [.loop 1 "x" "index" "xs" [.interpolation 1 "push(xs, x)"]]

theorem parse_pushAll : View.parse "@each (x in xs)@\x7bpush(xs, x)\x7d@end" = .ok pushAll := by
  with_unfolding_all rfl

def pushSetup : RenderSetup where
  host := pushing
  source := MemoryViews.source "html" []
  maxDepth := 1

def pushState : RenderState :=
  ⟨{ Store.ofData [(.str "xs", .shared 0)] [("push", .callable pushFunction)] with
      shared := #[.list [.int 1]] }, none, [], []⟩

def pushRound (count turn : Nat) (item : Value) : Round :=
  .ofElement "x" "index" count ((none, item), turn)

def pushScope (σ : Store) (count turn : Nat) (item : Value) : Nat × Store :=
  σ.child 0 (pushRound count turn item).bindings (some item)

def pushBody (inner : Nat) : Rendering Text :=
  renderAll pushing (renderInclude pushSetup 1 (.top none)) inner [.interpolation 1 "push(xs, x)"]

/-- Whether a loop over the list has an element to come, and its body pushes what it finds. -/
structure Pushes (s : RenderState) (turn : Nat) : Prop where
  hasScope : s.store.HasScope 0
  push : s.store.lookup 0 "push" = .callable pushFunction
  xs : s.store.lookup 0 "xs" = .shared 0
  list : ∃ items, s.store.items? (.shared 0) = some items ∧ turn < items.length

section Pushing

variable {s : RenderState} {turn : Nat} (count : Nat)

theorem Pushes.path_lt (h : Pushes s turn) : ∀ p ∈ s.store.path 0, p < s.store.scopes.size := by
  intro p hp
  rcases List.mem_cons.mp hp with rfl | houter
  · exact h.hasScope.there
  · exact absurd (h.hasScope.outer_lt p houter) (Nat.not_lt_zero p)

theorem Pushes.textOf_push (h : Pushes s turn) {items : List Value}
    (hitems : s.store.items? (.shared 0) = some items) (item : Value) :
    Rendering.textOf pushing (pushScope s.store count turn item).1 "push(xs, x)"
        { s with store := (pushScope s.store count turn item).2 } =
      (.ok (some "null"),
        { s with store := pushed (pushScope s.store count turn item).2 items item }) := by
  have hnames : (Round.named "x" "index" turn count (none, item)).map Prod.fst =
      ["x", "index", "isFirst", "isLast"] := rfl
  have hsees : s.store.Sees 0 (Round.named "x" "index" turn count (none, item)) item
      (pushScope s.store count turn item) :=
    Store.sees_child h.path_lt (by rw [hnames]; decide) item
  have hpush := (hsees.others "push" (by rw [hnames]; decide)).trans h.push
  have hxs := (hsees.others "xs" (by rw [hnames]; decide)).trans h.xs
  have hx := hsees.named ("x", item) List.mem_cons_self
  have htext := Course.textOf_push { s with store := (pushScope s.store count turn item).2 }
    hpush hxs ((Store.items?_congr rfl _).trans hitems)
  exact htext.trans (by rw [hx])

theorem Pushes.round (h : Pushes s turn) :
    ∃ item text after, Loop.next? s.store ⟨"x", "index", count, turn, .shared 0⟩ =
        some (pushRound count turn item, ⟨"x", "index", count, turn + 1, .shared 0⟩) ∧
      Rendering.alone pushBody 0 (pushRound count turn item) s = (.ok text, after) ∧
      Pushes after (turn + 1) := by
  rcases h.list with ⟨items, hitems, hturn⟩
  refine ⟨items[turn], "null" ++ "", { s with
    store := pushed (pushScope s.store count turn items[turn]).2 items items[turn] }, ?_, ?_, ?_⟩
  · rw [Loop.next?, Store.elements, Store.shape_of_items? hitems, List.getElem?_map,
      List.getElem?_eq_getElem hturn]
    rfl
  · have hopen : openRound 0 (pushRound count turn items[turn]) s =
        (.ok (pushScope s.store count turn items[turn]).1,
          { s with store := (pushScope s.store count turn items[turn]).2 }) := rfl
    rw [Rendering.alone, bind_def, hopen]
    dsimp only [pushBody]
    rw [renderAll, bind_def, renderNode, bind_def, h.textOf_push count hitems, renderAll]
    rfl
  · have hgrows := Store.grows_child s.store 0 (pushRound count turn items[turn]).bindings
      (some items[turn])
    have hframes := Store.Frames.child s.store 0 (pushRound count turn items[turn]).bindings
      (some items[turn])
    have hheld : (pushScope s.store count turn items[turn]).2.items? (.shared 0) = some items :=
      (Store.items?_congr rfl _).trans hitems
    exact {
      hasScope := h.hasScope.mono ⟨hgrows.size_le, hgrows.outer_eq⟩
      push := (hframes.lookup_eq h.path_lt "push").trans h.push
      xs := (hframes.lookup_eq h.path_lt "xs").trans h.xs
      list := ⟨items ++ [items[turn]], items?_pushed hheld items[turn], by
        rw [List.length_append]
        exact Nat.add_lt_add_right hturn 1⟩ }

theorem Pushes.lasts (h : Pushes s turn) (rest : List Task) (output : Text) (n : Nat) :
    Lasts pushSetup n ((Site.top none).course
      (.rounds none 0 [.interpolation 1 "push(xs, x)"] ⟨"x", "index", count, turn, .shared 0⟩ ::
        rest) output s) := by
  have hpasses := passes_renderInclude pushSetup 1 (.top none) rfl
  have hbody := hpasses.dealt _ (deals_nodes hpasses [.interpolation 1 "push(xs, x)"])
  -- A round leaves one element more on the list and is one turn further: there is always a next.
  induction n generalizing s turn output with
  | zero => exact .now
  | succ n ih =>
      rcases h.round count with ⟨item, text, after, hround, halone, hlater⟩
      exact .of_round hbody hround halone (ih hlater (output ++ text))

end Pushing

/-- A loop whose body pushes each element onto the list itself never comes to its end. -/
theorem pushAll_endless :
    View.parse "@each (x in xs)@\x7bpush(xs, x)\x7d@end" = .ok pushAll ∧
      ¬ Ends pushSetup (start none pushAll pushState) := by
  refine ⟨parse_pushAll, fun hends => ?_⟩
  rcases hends.exists_not_lasts with ⟨n, hn⟩
  have hpushes : Pushes pushState 0 :=
    ⟨Store.hasScope_root rfl, rfl, rfl, [.int 1], rfl, Nat.zero_lt_one⟩
  have hlist : Expr.compile "xs" = .ok (.name "xs") := by
    cbv
  have hvalue : Rendering.valueOf pushSetup.host 0 "xs" pushState =
      (.ok (.shared 0), pushState) := by
    rw [Rendering.valueOf, evalSource, hlist]
    rfl
  have hloop : beginLoop pushSetup.host 0 "x" "index" "xs" pushState =
      (.ok ⟨"x", "index", 1, 0, .shared 0⟩, pushState) := by
    rw [beginLoop, bind_def, hvalue]
    rfl
  have hbegin : (start none pushAll pushState).next? pushSetup = some ((Site.top none).course
      [.rounds none 0 [.interpolation 1 "push(xs, x)"] ⟨"x", "index", 1, 0, .shared 0⟩,
        .nodes none 0 []] "" pushState) := by
    show some (visit pushSetup none 0 (.loop 1 "x" "index" "xs" [.interpolation 1 "push(xs, x)"])
      ((Site.top none).course [.nodes none 0 []] "" pushState)) = _
    rw [visit, perform_course, hloop]
    rfl
  exact hn (.of_leads (.step hbegin .refl) (hpushes.lasts 1 _ _ n))

end Course
end Stencil
