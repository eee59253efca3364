import Stencil.Proofs.Render.Course
import Stencil.Proofs.Render.Isolation
import Stencil.Proofs.Value.Bindings

/-!
# Renders on their way

Between any two steps of a render, what occurs in the store is there, no scope binds a key twice,
the cache answers as it did at first, and every task has a scope that is there. So whatever holds
of a render in such a state holds wherever a render may come to.
-/

namespace Stencil

variable {ρ : Renaming} {floor : Nat}

/-! # Stores -/

namespace Store

/-- What is kept in a store throughout a render: above all, what occurs in it is there. -/
structure Stands (base σ τ : Store) : Prop where
  embeds : σ.Embeds .identity τ
  keyed : σ.IsKeyed
  mark_pos : 0 < σ.nextMark
  helpers : σ.helpers = base.helpers
  shared : σ.shared = base.shared

theorem simulation_stands (base : Store) (floor : Nat) :
    Simulation .identity floor (Store.Stands base) where
  mirrors h := h.embeds.mirrors
  mark h := ⟨h.embeds.mark, ⟨h.keyed.data, h.keyed.own⟩, Nat.succ_pos _, h.helpers, h.shared⟩
  record _ _ h :=
    ⟨{ h.embeds with }, ⟨h.keyed.data, h.keyed.own⟩, h.mark_pos, h.helpers, h.shared⟩
  child place bindings _ receiver _ h hplace hbindings hreceiver :=
    ⟨h.embeds.place_eq 0, h.embeds.child hplace.there hbindings hreceiver,
      h.keyed.child place bindings receiver, h.mark_pos, h.helpers, h.shared⟩
  bind place key value _ h _ hvalue :=
    ⟨h.embeds.bind place key hvalue, h.keyed.bind place _ value, h.mark_pos, h.helpers, h.shared⟩

theorem Stands.isClosed {base σ : Store} (h : Stands base σ σ) : σ.IsClosed :=
  ⟨h.embeds, h.mark_pos⟩

end Store

/-! # The parts of a render -/

namespace Rendering

section Parts

variable {V : Pairing} (sim : Simulation ρ floor V.Related) {e : Extent} {scope : Nat}

include sim

theorem Follows.chosenBody {host : Host} (hhost : host.IsPure) (hscope : e.Opened floor scope)
    (otherwise : Option (List Node)) (branches : List (Branch Node)) :
    Follows V e (fun _ => Eq) (chosenBody host scope otherwise branches)
      (chosenBody host (ρ.place scope) otherwise branches) := by
  induction branches generalizing e with
  | nil => exact .pure fun _ _ => rfl
  | cons branch rest ih =>
      refine (Follows.valueOf sim hhost hscope branch.condition).bind
        fun f hf value value' hvalue => ?_
      rw [hvalue.truthy_eq]
      split
      · exact .pure fun _ _ => rfl
      · exact ih (hscope.mono hf)

theorem Follows.beginLoop {host : Host} (hhost : host.IsPure) (hscope : e.Opened floor scope)
    (item index source : String) :
    Follows V e (fun f => LoopRenamed ρ f) (beginLoop host scope item index source)
      (beginLoop host (ρ.place scope) item index source) := by
  refine (Follows.valueOf sim hhost hscope source).bind fun _ _ _ _ hvalue => ?_
  exact .begin sim hvalue item index

theorem Follows.enterInclude {setup : RenderSetup} (hsource : V.source = setup.source)
    (hhost : setup.host.IsPure) (site : Site) {inclusion : Inclusion}
    (hscope : e.Opened floor inclusion.scope) :
    Follows V e
      (fun f => Option.Rel fun entered other =>
        f.Opened floor entered.scope ∧ other = { entered with scope := ρ.place entered.scope })
      (enterInclude setup site inclusion)
      (enterInclude setup site (renameInclusion ρ inclusion)) := by
  refine (Follows.includeTarget sim hscope hhost rfl).bind fun f hf found found' hfound => ?_
  cases hfound with
  | none => exact .pure fun _ _ => .none
  | @some found found' htarget =>
      rcases found with ⟨path, data⟩
      rcases found' with ⟨path', data'⟩
      rcases htarget with ⟨hpath, hdata⟩
      simp only at hpath hdata
      subst hpath
      dsimp only
      split
      · exact Follows.rejectCycle site inclusion path
      · refine (Follows.includeNodes hsource path).bind fun g hg nodes _ hnodes => ?_
        cases hnodes
        cases nodes with
        | none => exact .pure fun _ _ => .none
        | some nodes =>
            refine (Follows.addInclude path).bind fun k hk _ _ _ => ?_
            have hlater := (hf.trans hg).trans hk
            have hbindings := hdata.mono (hg.trans hk)
            refine (Follows.child sim (hscope.mono hlater) hbindings .none).bind ?_
            rintro l _ inner _ ⟨hinner, rfl⟩
            exact .pure fun m hm => .some ⟨hinner.mono hm, rfl⟩

end Parts

end Rendering

/-! # Courses -/

def Task.Within (e : Extent) : Task → Prop
  | .nodes _ scope _ => scope < e.scopes
  | .rounds _ scope _ loop => scope < e.scopes ∧ Rendering.LoopRenamed .identity e loop loop
  | .leave _ => True

theorem Task.Within.mono {e f : Extent} {task : Task} (h : task.Within e)
    (hwithin : e.Within f) : task.Within f := by
  cases task with
  | nodes view scope nodes => exact Nat.lt_of_lt_of_le (id h : scope < e.scopes) hwithin.scopes
  | rounds view scope body loop =>
      rcases (id h : scope < e.scopes ∧ _) with ⟨hscope, hloop⟩
      exact ⟨Nat.lt_of_lt_of_le hscope hwithin.scopes, hloop.mono hwithin⟩
  | leave path => trivial

namespace Course

open Rendering

structure Stands (V : Pairing) (c : Course) : Prop where
  state : c.state.Follows V c.state
  tasks : ∀ task ∈ c.tasks, task.Within c.state.store.extent

section Stands

variable {V : Pairing} {c next last : Course}

theorem Stands.push (h : c.Stands V) {task : Task} (htask : task.Within c.state.store.extent) :
    (c.push task).Stands V where
  state := h.state
  tasks := List.forall_mem_cons.mpr ⟨htask, h.tasks⟩

variable (hexcused : ∀ trouble, ¬V.excused trouble)

include hexcused

theorem Stands.perform {α : Type} (h : c.Stands V) {R : Extent → α → α → Prop}
    {action : Rendering α} (haction : Follows V c.state.store.extent R action action)
    {go : α → Course → Course}
    (hgo : ∀ a (later : Course), later.Stands V →
      c.state.store.extent.Within later.state.store.extent →
      R later.state.store.extent a a → (go a later).Stands V) :
    (c.perform action go).Stands V := by
  have hagrees := haction.agrees hexcused h.state (.refl _)
  unfold Course.perform
  generalize action c.state = run at hagrees ⊢
  rcases run with ⟨result, after⟩
  rcases hagrees with ⟨houtcome, hafter, hgrown⟩
  have htasks : ∀ task ∈ c.tasks, task.Within after.store.extent :=
    fun task htask => (h.tasks task htask).mono hgrown
  cases houtcome with
  | ok hresult => exact hgo _ { c with state := after } ⟨hafter, htasks⟩ hgrown hresult
  | error trouble => exact ⟨hafter, htasks⟩

variable (sim : Simulation .identity 0 V.Related) {setup : RenderSetup}
  (hsource : V.source = setup.source) (hhost : setup.host.IsPure)

include sim hsource hhost

theorem Stands.visit (h : c.Stands V) (view : Option Text) {scope : Nat}
    (hscope : scope < c.state.store.scopes.size) (node : Node) :
    (visit setup view scope node c).Stands V := by
  have hopened : c.state.store.extent.Opened 0 scope := ⟨Nat.zero_le _, hscope⟩
  -- A leaf has no includes, so nothing is to be said about them.
  have hnone : IncludesFollow .identity 0 V (fun _ => return "") (fun _ => return "") :=
    fun _ _ _ => .pure fun _ _ => rfl
  have hleaf : (c.perform (renderNode setup.host (fun _ => return "") scope node)
      Course.write).Stands V :=
    h.perform hexcused (.renderNode sim hhost hnone hopened node)
      fun _ _ hlater _ _ => ⟨hlater.state, hlater.tasks⟩
  cases node with
  | conditional line branches otherwise =>
      rw [Course.visit]
      refine h.perform hexcused (.chosenBody sim hhost hopened otherwise branches) ?_
      intro body later hlater hgrown _
      exact hlater.push (Nat.lt_of_lt_of_le hscope hgrown.scopes)
  | loop line item index source body =>
      rw [Course.visit]
      have hbegin := Follows.beginLoop sim hhost hopened item index source
      refine h.perform hexcused hbegin ?_
      intro loop later hlater hgrown hloop
      exact hlater.push ⟨Nat.lt_of_lt_of_le hscope hgrown.scopes, hloop⟩
  | inclusion line path data =>
      rw [Course.visit]
      let inclusion : Inclusion := ⟨line, path, data, scope⟩
      have hscope' : c.state.store.extent.Opened 0 inclusion.scope := hopened
      have hinside := Follows.enterInclude sim hsource hhost ⟨view, c.stack, c.depth⟩ hscope'
      refine h.perform hexcused hinside ?_
      intro entered later hlater _ hentered
      cases hentered with
      | none => exact hlater
      | some hinner =>
          refine ⟨hlater.state, ?_⟩
          exact List.forall_mem_cons.mpr ⟨hinner.1.there,
            List.forall_mem_cons.mpr ⟨trivial, hlater.tasks⟩⟩
  | _ => exact hleaf

theorem Stands.step (h : c.Stands V) (hnext : c.next? setup = some next) : next.Stands V := by
  have htasks := h.tasks
  cases steps_of_next? hnext with
  | ends hdone =>
      rw [hdone] at htasks
      exact ⟨h.state, (List.forall_mem_cons.mp htasks).2⟩
  | @visits view scope node others rest hnode _ =>
      rw [hnode] at htasks
      rcases List.forall_mem_cons.mp htasks with ⟨hscope, hrest⟩
      have hothers : Course.Stands V { c with tasks := .nodes view scope others :: rest } :=
        ⟨h.state, List.forall_mem_cons.mpr ⟨hscope, hrest⟩⟩
      exact hothers.visit hexcused sim hsource hhost view hscope node
  | @begins view scope body loop later round rest hbegins _ hfound =>
      rw [hbegins] at htasks
      rcases List.forall_mem_cons.mp htasks with ⟨⟨hthere, hloop⟩, hrest⟩
      have hrenamed := next?_renamed (sim.mirrors h.state.store) hloop
      rw [hfound] at hrenamed
      rcases Option.rel_some_some.mp hrenamed with ⟨hround, hlater⟩
      have hothers : Course.Stands V { c with tasks := .rounds view scope body later :: rest } :=
        ⟨h.state, List.forall_mem_cons.mpr ⟨⟨hthere, hlater⟩, hrest⟩⟩
      refine hothers.perform hexcused (.child sim ⟨Nat.zero_le _, hthere⟩ hround.bindings
        (.some hround.receiver)) ?_
      intro inner later hstands _ hinner
      exact hstands.push hinner.1.there

theorem Stands.leads (h : c.Stands V) (hlast : Leads setup c last) : last.Stands V := by
  induction hlast with
  | refl => exact h
  | step hstep _ ih => exact ih (h.step hexcused sim hsource hhost hstep)

end Stands

end Course

end Stencil
