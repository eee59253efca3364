import Stencil.Proofs.Render.Environs

/-!
# Watched renders

With an evaluator that writes down what it is handed, rendering the nodes of a view takes its
course as ever, and all that is written down are references of the nodes. The expressions of
included views are not theirs.
-/

namespace Stencil

/-! # Renders with something beside them -/

abbrev Beside (κ α : Type) : Type := ExceptT Trouble (StateM (RenderState × κ)) α

def Beside.quietly {κ α : Type} (action : Rendering α) : Beside κ α := fun s =>
  ((action s.1).1, ((action s.1).2, s.2))

/-! # Evaluators that write down what they are handed -/

/-- Renders that keep a list of expressions beside their state, the latest first. -/
abbrev Watched (α : Type) : Type := Beside (List String) α

namespace Watched

variable {α β : Type}

def handed (source : String) (action : Rendering α) : Watched α := fun s =>
  ((action s.1).1, ((action s.1).2, source :: s.2))

/-- Whether a watched render takes the course of another, and is handed some expressions only. -/
def Watches (allowed : String → Prop) (watched : Watched α) (action : Rendering α) : Prop :=
  ∀ s old, ∃ new, watched (s, old) = ((action s).1, ((action s).2, new ++ old)) ∧
    ∀ source ∈ new, allowed source

section Steps

variable {allowed : String → Prop}

theorem Watches.quietly (action : Rendering α) :
    Watches allowed (Beside.quietly action) action := by
  intro s old
  exact ⟨[], rfl, by simp⟩

theorem Watches.handed {source : String} (hsource : allowed source) (action : Rendering α) :
    Watches allowed (handed source action) action := by
  intro s old
  exact ⟨[source], rfl, by simpa using hsource⟩

theorem Watches.pure (a : α) : Watches allowed (Pure.pure a : Watched α) (Pure.pure a) := by
  intro s old
  exact ⟨[], rfl, by simp⟩

theorem Watches.bind {watched : Watched α} {action : Rendering α}
    (haction : Watches allowed watched action) {next : α → Watched β} {after : α → Rendering β}
    (hnext : ∀ a, Watches allowed (next a) (after a)) :
    Watches allowed (watched >>= next) (action >>= after) := by
  intro s old
  rcases haction s old with ⟨new, hrun, hnew⟩
  rw [bind_def, bind_def, hrun]
  rcases action s with ⟨trouble | a, after⟩
  · exact ⟨new, rfl, hnew⟩
  · rcases hnext a after (new ++ old) with ⟨more, hmore, hallowed⟩
    refine ⟨more ++ new, ?_, ?_⟩
    · rw [List.append_assoc]
      exact hmore
    · intro source hsource
      exact (List.mem_append.mp hsource).elim (hallowed source) (hnew source)

end Steps

end Watched

def watching (setup : RenderSetup) (left : Nat) (site : Site) : Environs Watched where
  valueOf scope source := Watched.handed source (Rendering.valueOf setup.host scope source)
  textOf scope source := Watched.handed source (Rendering.textOf setup.host scope source)
  bindParts scope value parts := Beside.quietly (bindParts scope value parts)
  beginLoop item index collection :=
    Beside.quietly (Rendering.onStore fun σ => (Loop.begin σ item index collection, σ))
  nextRound loop := Beside.quietly (nextRound loop)
  openRound scope round := Beside.quietly (openRound scope round)
  patience := setup.host.patience
  unending := Beside.quietly (throw .unending)
  bindings source value := Beside.quietly (givenBindings source value)
  enter inclusion data := Beside.quietly (includeWith setup left site inclusion data)

/-! # What is handed to the evaluator -/

section Nodes

variable (setup : RenderSetup) (left : Nat) (site : Site) {allowed : String → Prop}

theorem watching_matches :
    (watching setup left site).Matches (fun _ => Watched.Watches allowed) allowed setup left
      site where
  pure a := .pure a
  bind hfirst hnext := hfirst.bind hnext
  valueOf _ _ hsource := .handed hsource _
  textOf _ _ hsource := .handed hsource _
  bindParts _ _ _ := .quietly _
  beginLoop _ _ _ := .quietly _
  nextRound _ := .quietly _
  openRound _ _ := .quietly _
  patience := rfl
  unending := .quietly _
  bindings _ _ := .quietly _
  enter _ _ := .quietly _

theorem watches_all (nodes : List Node) (scope : Nat)
    (h : ReferencesIn allowed (Node.walkAll nodes)) :
    Watched.Watches allowed ((watching setup left site).all scope nodes)
      (renderAll setup.host (renderInclude setup left site) scope nodes) :=
  (watching_matches setup left site).all nodes scope h

end Nodes

/--
Whatever the state, the data and the helpers are, and wherever in the tree of includes the view
stands: each expression that its nodes hand to the evaluator is one of their references.
-/
theorem handed_subset_references (setup : RenderSetup) (left : Nat) (site : Site) (scope : Nat)
    (nodes : List Node) (s : RenderState) :
    ∃ handed : List String,
      (watching setup left site).all scope nodes (s, []) =
          ((renderAll setup.host (renderInclude setup left site) scope nodes s).1,
            ((renderAll setup.host (renderInclude setup left site) scope nodes s).2, handed)) ∧
        handed ⊆ Node.references nodes := by
  have hall : ReferencesIn (· ∈ Node.references nodes) (Node.walkAll nodes) := by
    intro node hnode source hsource
    exact List.mem_flatMap.mpr ⟨node, hnode, hsource⟩
  rcases watches_all setup left site nodes scope hall s [] with ⟨handed, hrun, hallowed⟩
  rw [List.append_nil] at hrun
  exact ⟨handed, hrun, hallowed⟩

end Stencil
