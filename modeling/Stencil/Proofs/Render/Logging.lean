import Stencil.Proofs.Journal.Lines
import Stencil.Proofs.Render.Watching

/-!
# Logged renders

A log can be written while the render goes on: each event becomes a line as soon as it happens,
if the settings let it through, and a line that cannot be written stops the render as any other
trouble does. There is no such line. So under any settings a logged render takes the course of
the render that only keeps a journal, and leaves the lines of this journal.
-/

namespace Stencil

/-! # Writing lines -/

/-- What the lines of a render depend on besides its events. -/
structure LogWriter where
  settings : LogSettings
  /-- The time of the lines. -/
  time : String
  /-- The view, as the log names it. -/
  view : Text

/-- Renders that write lines beside their state, the first line first. -/
abbrev Logged (α : Type) : Type := Beside (List Text) α

namespace Logged

variable {α : Type}

section Writer

variable (writer : LogWriter)

def write (entry : LogEntry) : Logged Unit := fun s =>
  if entry.isEnabled writer.settings then
    match entry.line writer.settings writer.time s.1.store with
    | .ok line => (.ok (), (s.1, s.2 ++ [line]))
    | .error failure => (.error failure.trouble, s)
  else (.ok (), s)

def tell (event : Event) : Logged Unit := do
  Beside.quietly (Rendering.note event)
  write writer (event.entry writer.view)

/-! # Renders that write their lines -/

def recover (source : String) (action : Evaluation α) (instead : α) : Logged α := do
  match ← Beside.quietly (Rendering.onStore action) with
  | .ok a => return a
  | .error failure =>
      match failure.told with
      | .ok text => do
          tell writer (.expressionFailed (Text.strip source) ⟨failure.kind, text⟩)
          return instead
      | .error again => throw again.trouble

def givenBindings (source : String) (value : Value) : Logged (Entries Value) := do
  match (← Beside.quietly get).store.entries? value with
  | some entries => return entries
  | none => do
      tell writer (.expressionIgnored source "include data is not a mapping")
      return []

def missing (site : Site) (inclusion : Inclusion) (error : ViewError) : Event :=
  .includeMissing inclusion.path
    (ErrorForm.includeNotFound.fill
      ([ ("path", .text inclusion.path),
        ("detail", (Fact.said error.detail).getD (.text error.message)) ] ++
        site.facts inclusion) none).text

def rejectCycle (site : Site) (inclusion : Inclusion) (path : Text) : Logged α := do
  tell writer (.includeCycle path (site.stack ++ [path]))
  throw (.view (cycleError site inclusion path))

def includeNodes (setup : RenderSetup) (site : Site) (inclusion : Inclusion) (path : Text) :
    Logged (Option (List Node)) := do
  tell writer (.includeLoading path (site.depth + 1))
  match ← Beside.quietly (Rendering.attempt (Rendering.fetch setup.source path)) with
  | .ok nodes => return some nodes
  | .error (.view e) =>
      if recoverableCodes.contains e.code then do
        tell writer (missing site inclusion e)
        return none
      else throw (.view e)
  | .error trouble => throw trouble

def environs (host : Host) (enter : Inclusion → Entries Value → Logged Text) :
    Environs Logged where
  valueOf scope source := recover writer source (evalSource host scope source) .undefined
  textOf scope source := recover writer source (textOfSource host scope source) none
  bindParts scope value parts := Beside.quietly (bindParts scope value parts)
  beginLoop item index collection :=
    Beside.quietly (Rendering.onStore fun σ => (Loop.begin σ item index collection, σ))
  nextRound loop := Beside.quietly (nextRound loop)
  openRound scope round := Beside.quietly (openRound scope round)
  patience := host.patience
  unending := Beside.quietly (throw .unending)
  bindings source value := givenBindings writer source value
  enter := enter

def includeWith (setup : RenderSetup) :
    Nat → Site → Inclusion → Entries Value → Logged Text
  | left, site, inclusion, data => do
      match ViewPath.resolve setup.source.viewsType inclusion.path site.view with
      | .error e => do
          tell writer (missing site inclusion e)
          return ""
      | .ok path =>
          match left with
          | 0 => rejectCycle writer site inclusion path
          | left + 1 =>
              if site.stack.contains path then rejectCycle writer site inclusion path
              else
                match ← includeNodes writer setup site inclusion path with
                | none => return ""
                | some nodes => do
                    Beside.quietly (Rendering.addInclude path)
                    let scope ← Beside.quietly (Rendering.onStore fun σ =>
                      σ.child inclusion.scope data none)
                    (environs writer setup.host
                      (includeWith setup left (site.enter path))).all scope nodes

def nodes (setup : RenderSetup) (left : Nat) (site : Site) (scope : Nat) (nodes : List Node) :
    Logged Text :=
  (environs writer setup.host (includeWith writer setup left site)).all scope nodes

end Writer

end Logged

/-! # What is written -/

def LogWriter.lines (writer : LogWriter) (σ : Store) (events : List Event) :
    Except Failure (List Text) :=
  Journal.lines writer.settings writer.time σ (events.reverse.map (Event.entry writer.view))

theorem LogWriter.lines_append {writer : LogWriter} {σ : Store} {more events : List Event}
    {first others : List Text} (hfirst : writer.lines σ events = .ok first)
    (hothers : writer.lines σ more = .ok others) :
    writer.lines σ (more ++ events) = .ok (first ++ others) := by
  rw [lines, List.reverse_append, List.map_append]
  exact Journal.lines_append _ _ hfirst hothers

/--
Whether a logged computation takes the course of a render, and leaves the lines of what the
render tells. The lines are the same in all stores.
-/
def Logs (writer : LogWriter) (logged : Logged α) (action : Rendering α) : Prop :=
  ∀ s out, ∃ new lines, (action s).2.events = new ++ s.events ∧
    (∀ σ, writer.lines σ new = .ok lines) ∧
      logged (s, out) = ((action s).1, ((action s).2, out ++ lines))

def Rendering.TellsNothing (action : Rendering α) : Prop :=
  ∀ s, (action s).2.events = s.events

namespace Logs

variable {α β : Type} {writer : LogWriter}

theorem quietly (action : Rendering α) (h : action.TellsNothing) :
    Logs writer (Beside.quietly action) action := by
  intro s out
  refine ⟨[], [], h s, fun _ => rfl, ?_⟩
  rw [List.append_nil]
  rfl

theorem pure (a : α) : Logs writer (Pure.pure a) (Pure.pure a) :=
  quietly (Pure.pure a) fun _ => rfl

theorem throw (trouble : Trouble) :
    Logs writer (MonadExcept.throw trouble : Logged α) (MonadExcept.throw trouble) :=
  quietly (MonadExcept.throw trouble) fun _ => rfl

theorem bind {logged : Logged α} {action : Rendering α} (haction : Logs writer logged action)
    {next : α → Logged β} {after : α → Rendering β} (hnext : ∀ a, Logs writer (next a) (after a)) :
    Logs writer (logged >>= next) (action >>= after) := by
  intro s out
  rcases haction s out with ⟨new, lines, hevents, hlines, hrun⟩
  rw [bind_def, bind_def, hrun]
  rcases hstep : action s with ⟨trouble | a, s₁⟩
  · rw [hstep] at hevents
    exact ⟨new, lines, hevents, hlines, rfl⟩
  · rw [hstep] at hevents
    rcases hnext a s₁ (out ++ lines) with ⟨more, others, hmore, hothers, hrest⟩
    refine ⟨more ++ new, lines ++ others, ?_, ?_, ?_⟩
    · exact hmore.trans (by rw [hevents, List.append_assoc])
    · intro σ
      exact LogWriter.lines_append (hlines σ) (hothers σ)
    · rw [← List.append_assoc]
      exact hrest

theorem tell (event : Event) :
    Logs writer (Logged.tell writer event) (Rendering.note event) := by
  intro s out
  rcases event.exists_line writer.view writer.settings writer.time with ⟨line, hline⟩
  refine ⟨[event], _, rfl, fun σ => Journal.lines_singleton _ _ (hline σ), ?_⟩
  rw [Logged.tell, bind_def]
  show Logged.write writer (event.entry writer.view) ((Rendering.note event s).2, out) = _
  rw [Logged.write, hline]
  cases (event.entry writer.view).isEnabled writer.settings with
  | false =>
      rw [if_neg Bool.false_ne_true, if_neg Bool.false_ne_true, List.append_nil]
      rfl
  | true => rfl

/-! # The steps of a render -/

theorem recover (source : String) (action : Evaluation α) (instead : α) :
    Logs writer (Logged.recover writer source action instead)
      (Rendering.recover source action instead) := by
  refine (quietly _ fun _ => rfl).bind fun result => ?_
  cases result with
  | ok a => exact .pure a
  | error failure =>
      dsimp only
      cases failure.told with
      | ok text => exact (tell _).bind fun _ => .pure instead
      | error again => exact .throw _

theorem givenBindings (source : String) (value : Value) :
    Logs writer (Logged.givenBindings writer source value)
      (Stencil.givenBindings source value) := by
  refine (quietly get fun _ => rfl).bind fun s => ?_
  cases s.store.entries? value with
  | some entries => exact .pure entries
  | none => exact (tell _).bind fun _ => .pure []

theorem noteMissing (site : Site) (inclusion : Inclusion) (error : ViewError) :
    Logs writer (Logged.tell writer (Logged.missing site inclusion error))
      (Stencil.noteMissing site inclusion error) :=
  tell _

theorem rejectCycle (site : Site) (inclusion : Inclusion) (path : Text) :
    Logs writer (Logged.rejectCycle writer site inclusion path : Logged α)
      (Stencil.rejectCycle site inclusion path) :=
  (tell _).bind fun _ => .throw _

theorem bindParts (scope : Nat) (value : Value) (parts : List (String × Part)) :
    Logs writer (Beside.quietly (Stencil.bindParts scope value parts))
      (Stencil.bindParts scope value parts) := by
  refine quietly _ ?_
  induction parts with
  | nil => exact fun _ => rfl
  | cons part rest ih =>
      intro s
      rw [Stencil.bindParts, bind_def, bindPart]
      cases part.2.take s.store value with
      | error failure => rfl
      | ok found => exact ih _

theorem fetch (source : ViewSource) (path : Text) :
    Logs writer (Beside.quietly (Rendering.fetch source path))
      (Rendering.fetch source path) := by
  refine quietly _ fun s => ?_
  rw [Rendering.fetch]
  cases s.cache <;> rfl

theorem attempt_fetch (source : ViewSource) (path : Text) :
    Logs writer (Beside.quietly (Rendering.attempt (Rendering.fetch source path)))
      (Rendering.attempt (Rendering.fetch source path)) := by
  refine quietly _ fun s => ?_
  rw [Rendering.attempt, Rendering.fetch]
  cases s.cache <;> rfl

theorem includeNodes (setup : RenderSetup) (site : Site) (inclusion : Inclusion) (path : Text) :
    Logs writer (Logged.includeNodes writer setup site inclusion path)
      (Stencil.includeNodes setup site inclusion path) := by
  refine (tell _).bind fun _ => ?_
  refine (attempt_fetch setup.source path).bind fun result => ?_
  cases result with
  | ok nodes => exact .pure _
  | error trouble =>
      cases trouble with
      | view e =>
          dsimp only
          split
          · exact (noteMissing site inclusion e).bind fun _ => .pure none
          · exact .throw _
      | missing => exact .throw _
      | unreadable => exact .throw _
      | other => exact .throw _
      | failed => exact .throw _
      | unending => exact .throw _

end Logs

/-! # Nodes and includes -/

section Nodes

variable {writer : LogWriter} {setup : RenderSetup}

theorem logs_environs {left : Nat} {site : Site}
    (henter : ∀ inclusion data,
      Logs writer (Logged.includeWith writer setup left site inclusion data)
        (includeWith setup left site inclusion data)) :
    (Logged.environs writer setup.host (Logged.includeWith writer setup left site)).Matches
      (fun _ => Logs writer) (fun _ => True) setup left site where
  pure a := .pure a
  bind hfirst hnext := hfirst.bind hnext
  valueOf _ _ _ := .recover _ _ _
  textOf _ _ _ := .recover _ _ _
  bindParts scope value parts := .bindParts scope value parts
  beginLoop _ _ _ := .quietly _ fun _ => rfl
  nextRound _ := .quietly _ fun _ => rfl
  openRound _ _ := .quietly _ fun _ => rfl
  patience := rfl
  unending := .quietly _ fun _ => rfl
  bindings source value := .givenBindings source value
  enter := henter

theorem logs_includeWith (left : Nat) (site : Site) (inclusion : Inclusion)
    (data : Entries Value) :
    Logs writer (Logged.includeWith writer setup left site inclusion data)
      (includeWith setup left site inclusion data) := by
  induction left generalizing site inclusion data with
  | zero =>
      rw [Logged.includeWith, includeWith]
      cases ViewPath.resolve setup.source.viewsType inclusion.path site.view with
      | error e => exact (Logs.noteMissing site inclusion e).bind fun _ => .pure _
      | ok path => exact .rejectCycle site inclusion path
  | succ left ih =>
      rw [Logged.includeWith, includeWith]
      cases ViewPath.resolve setup.source.viewsType inclusion.path site.view with
      | error e => exact (Logs.noteMissing site inclusion e).bind fun _ => .pure _
      | ok path =>
          dsimp only
          split
          · exact .rejectCycle site inclusion path
          · refine (Logs.includeNodes setup site inclusion path).bind fun found => ?_
            cases found with
            | none => exact .pure _
            | some nodes =>
                refine (Logs.quietly _ fun _ => rfl).bind fun _ => ?_
                refine (Logs.quietly _ fun _ => rfl).bind fun scope => ?_
                have hinside := logs_environs (ih (site.enter path))
                exact hinside.all nodes scope fun _ _ _ _ => trivial

theorem logs_nodes (left : Nat) (site : Site) (scope : Nat) (nodes : List Node) :
    Logs writer (Logged.nodes writer setup left site scope nodes)
      (renderAll setup.host (renderInclude setup left site) scope nodes) :=
  (logs_environs (logs_includeWith left site)).all nodes scope fun _ _ _ _ => trivial

end Nodes

end Stencil
