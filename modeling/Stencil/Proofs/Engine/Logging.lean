import Mathlib
import Stencil.Proofs.Engine.Transparency
import Stencil.Proofs.Render.Logging

/-!
# Engines that log

An engine that logs writes its lines while it answers: the beginning and the end of each render,
and all that happens in between. Whatever the settings of the log are, it answers a row of
requests as an engine that keeps a journal and writes nothing. As JSON, it writes the lines that
it would write of everything, less those that its settings do not let through.
-/

namespace Stencil

/-! # Renders from beginning to end -/

def Rendering.conclude (view : Option Text) (action : Rendering Rendered) :
    Rendering (Except Escape Rendered) := do
  Rendering.note .renderStarted
  match ← Rendering.attempt action with
  | .ok rendered => do
      Rendering.note (.renderCompleted 0 rendered.output.length rendered.includes.length)
      return .ok rendered
  | .error trouble =>
      match trouble.escape (view.map .text) with
      | .view error => do
          Rendering.note (.renderFailed error.asCause 0)
          return .error (.view error)
      | escape => return .error escape

theorem Rendering.conclude_eq (view : Option Text) (action : Rendering Rendered)
    (s : RenderState) :
    Rendering.conclude view action s =
      (.ok (concluded view action s).1, (concluded view action s).2) := by
  rw [conclude, bind_def, note]
  dsimp only
  rw [bind_def, attempt, concluded]
  rcases action { s with events := .renderStarted :: s.events } with ⟨trouble | rendered, after⟩
  · dsimp only
    cases trouble.escape (view.map .text) <;> rfl
  · rfl

namespace Logged

variable (writer : LogWriter) (setup : RenderSetup) (helpers : Helpers)

def renderOver (view : Option Text) (data : Value) (nodes : List Node) : Logged Rendered := do
  let s ← Beside.quietly get
  let entries ← Beside.quietly (Rendering.ofExcept (renderData s.store data))
  Beside.quietly (Rendering.onStore fun σ => ((), σ.restart entries helpers))
  let output ← Logged.nodes writer setup setup.maxDepth (Site.top view) 0 nodes
  let after ← Beside.quietly get
  return ⟨output, Node.anyDirective nodes, after.includes.reverse⟩

def renderNamed (name : Text) (data : Value) : Logged Rendered := do
  match ViewPath.resolve setup.source.viewsType name none with
  | .error e => throw (.view e)
  | .ok path => do
      let nodes ← Beside.quietly (Rendering.fetch setup.source path)
      renderOver writer setup helpers (some path) data nodes

def renderText (text : String) (view : Option Text) (data : Value) : Logged Rendered :=
  match View.parse text with
  | .error e => throw (.view (View.structureError e view))
  | .ok nodes => renderOver writer setup helpers view data nodes

def attempt {α : Type} (action : Logged α) : Logged (Except Trouble α) := fun s =>
  (.ok (action s).1, (action s).2)

/-- Tells of the beginning and the end of a render. What is told there is no part of the render. -/
def conclude (view : Option Text) (action : Logged Rendered) :
    Logged (Except Escape Rendered) := do
  tell writer .renderStarted
  match ← attempt action with
  | .ok rendered => do
      tell writer (.renderCompleted 0 rendered.output.length rendered.includes.length)
      return .ok rendered
  | .error trouble =>
      match trouble.escape (view.map .text) with
      | .view error => do
          tell writer (.renderFailed error.asCause 0)
          return .error (.view error)
      | escape => return .error escape

end Logged

namespace Logs

variable {writer : LogWriter} (setup : RenderSetup) (helpers : Helpers)

theorem renderOver (view : Option Text) (data : Value) (nodes : List Node) :
    Logs writer (Logged.renderOver writer setup helpers view data nodes)
      (Stencil.renderOver setup helpers view data nodes) := by
  refine (quietly get fun _ => rfl).bind fun s => ?_
  refine (quietly _ fun _ => rfl).bind fun entries => ?_
  refine (quietly _ fun _ => rfl).bind fun _ => ?_
  refine (logs_nodes setup.maxDepth (Site.top view) 0 nodes).bind fun output => ?_
  exact (quietly get fun _ => rfl).bind fun after => .pure _

theorem renderNamed (name : Text) (data : Value) :
    Logs writer (Logged.renderNamed writer setup helpers name data)
      (Stencil.renderNamed setup helpers name data) := by
  unfold Logged.renderNamed Stencil.renderNamed
  cases ViewPath.resolve setup.source.viewsType name none with
  | error e => exact .throw _
  | ok path =>
      exact (Logs.fetch setup.source path).bind fun nodes =>
        .renderOver setup helpers (some path) data nodes

theorem renderText (text : String) (view : Option Text) (data : Value) :
    Logs writer (Logged.renderText writer setup helpers text view data)
      (Stencil.renderText setup helpers text view data) := by
  unfold Logged.renderText Stencil.renderText
  cases View.parse text with
  | error e => exact .throw _
  | ok nodes => exact .renderOver setup helpers view data nodes

theorem attempt {α : Type} {logged : Logged α} {action : Rendering α}
    (h : Logs writer logged action) :
    Logs writer (Logged.attempt logged) (Rendering.attempt action) := by
  intro s out
  rcases h s out with ⟨new, lines, hevents, hlines, hrun⟩
  refine ⟨new, lines, hevents, hlines, ?_⟩
  rw [Logged.attempt, hrun]
  rfl

theorem conclude (view : Option Text) {logged : Logged Rendered} {action : Rendering Rendered}
    (h : Logs writer logged action) :
    Logs writer (Logged.conclude writer view logged) (Rendering.conclude view action) := by
  refine (tell _).bind fun _ => ?_
  refine h.attempt.bind fun result => ?_
  cases result with
  | ok rendered => exact (tell _).bind fun _ => .pure _
  | error trouble =>
      dsimp only
      cases trouble.escape (view.map .text) with
      | view error => exact (tell _).bind fun _ => .pure _
      | failure failure => exact .pure _
      | unending => exact .pure _

end Logs

/-! # Requests -/

namespace Engine

def withLogging (engine : Engine) (logging : LogSection) : Engine :=
  { engine with settings := { engine.settings with logging := logging } }

/-- What a request comes to while a log is written. -/
structure Logging where
  /-- The answer, unless writing the log has stopped it. -/
  answer : Except Trouble Answer
  engine : Engine
  /-- The lines that are written. -/
  lines : List Text

section Requests

variable (settings : LogSettings) (time : String)

def runLogged (engine : Engine) (view : Option Text) (action : LogWriter → Logged Rendered) :
    Logging :=
  let label := Event.viewLabel view
  let writer : LogWriter := ⟨settings, time, label⟩
  let result := Logged.conclude writer view (action writer) (engine.begin, [])
  let after := result.2.1
  { answer := result.1.map .rendered
    engine := { engine with
      store := after.store
      cache := after.cache
      journal := engine.journal ++ after.events.reverse.map (Event.entry label) }
    lines := result.2.2 }

/-- Answers a request and writes the log. Nothing but renders is logged. -/
def performLogged (host : Host) (engine : Engine) : Request → Logging
  | .render name data =>
      engine.runLogged settings time (some name) fun writer =>
        Logged.renderNamed writer (engine.setup host) engine.helpers name data
  | .renderSource text view data =>
      engine.runLogged settings time view fun writer =>
        Logged.renderText writer (engine.setup host) engine.helpers text view data
  | request => ⟨.ok (engine.perform host request).1, (engine.perform host request).2, []⟩

def answersLogged (host : Host) (engine : Engine) :
    List Request → List (Except Trouble Answer) × List Text
  | [] => ([], [])
  | request :: rest =>
      let first := engine.performLogged settings time host request
      let others := answersLogged host first.engine rest
      (first.answer :: others.1, first.lines ++ others.2)

end Requests

/-! # Requests under all settings -/

abbrev Told : Type := List (LogEntry × Text)

/-- Whether the lines are those of the entries, and each entry is let through where all are. -/
structure Told.IsSound (time : String) (told : Told) : Prop where
  line : ∀ entry ∈ told, ∀ σ, entry.1.jsonLine time σ = .ok entry.2
  enabled : ∀ entry ∈ told, entry.1.isEnabled (.everything .json) = true

theorem Told.IsSound.append {time : String} {told more : Told} (h : told.IsSound time)
    (hmore : more.IsSound time) : (told ++ more).IsSound time where
  line := List.forall_mem_append.mpr ⟨h.line, hmore.line⟩
  enabled := List.forall_mem_append.mpr ⟨h.enabled, hmore.enabled⟩

/--
Whether a request is answered in the same way under all settings of the log, and the lines that
are written are those of some entries.
-/
def LogsAlike (time : String) (host : Host) (engine : Engine) (request : Request)
    (told : Told) : Prop :=
  ∀ logging settings, ∃ lines,
    (∀ σ, Journal.lines settings time σ (told.map Prod.fst) = .ok lines) ∧
      (engine.withLogging logging).performLogged settings time host request =
        ⟨.ok (engine.perform host request).1, (engine.perform host request).2.withLogging logging,
          lines⟩

section Requests

variable (time : String) (host : Host) (engine : Engine)

theorem exists_told_render (view : Option Text) {request : Request}
    {logged : LogWriter → Logged Rendered} {action : Rendering Rendered}
    (h : ∀ writer, Logs writer (logged writer) action)
    (hperform : engine.perform host request =
      (.rendered (engine.run view action).1, (engine.run view action).2))
    (hlogged : ∀ logging settings,
      (engine.withLogging logging).performLogged settings time host request =
        (engine.withLogging logging).runLogged settings time view logged) :
    ∃ told : Told, told.IsSound time ∧ engine.LogsAlike time host request told := by
  have hjson (event : Event) : ∃ line, ∀ σ,
      (event.entry (Event.viewLabel view)).jsonLine time σ = .ok line :=
    event.exists_line _ (.everything .json) time
  choose line hline using hjson
  refine ⟨(concluded view action engine.begin).2.events.reverse.map fun event =>
    (event.entry (Event.viewLabel view), line event), ⟨?_, ?_⟩, ?_⟩
  · rintro _ htold σ
    rcases List.mem_map.mp htold with ⟨event, _, rfl⟩
    exact hline event σ
  · rintro _ htold
    rcases List.mem_map.mp htold with ⟨event, _, rfl⟩
    cases event <;> rfl
  · intro logging settings
    rcases (h ⟨settings, time, Event.viewLabel view⟩).conclude view engine.begin [] with
      ⟨new, lines, hevents, hlines, hrun⟩
    rw [Rendering.conclude_eq] at hevents hrun
    have hnew : (concluded view action engine.begin).2.events = new :=
      hevents.trans (List.append_nil new)
    refine ⟨lines, ?_, ?_⟩
    · intro σ
      rw [List.map_map, ← hlines σ, ← hnew]
      rfl
    · rw [hlogged, runLogged]
      show Logging.mk _ _ _ = _
      rw [show (engine.withLogging logging).begin = engine.begin from rfl, hrun, hperform]
      rfl

theorem perform_withLogging {request : Request} (hrender : request.isRender = false)
    (logging : LogSection) :
    (engine.withLogging logging).perform host request =
      ((engine.perform host request).1, (engine.perform host request).2.withLogging logging) := by
  rcases engine with ⟨settings, viewsType, shelf, files, cache, helpers, store, journal⟩
  cases request with
  | render name data => cases hrender
  | renderSource text view data => cases hrender
  | register name helper =>
      unfold perform register withLogging
      dsimp only
      cases helpers.register store name helper <;> rfl
  | registerAll given => rfl
  | addView name text =>
      unfold perform addView withLogging
      cases shelf with
      | directory root => rfl
      | memory views =>
          dsimp only
          cases views.add viewsType name text <;> rfl
  | writeFile path text => rfl
  | clearCache name =>
      unfold perform clearCache withLogging
      cases cache with
      | none => rfl
      | some cache =>
          dsimp only
          cases Text.said name with
          | none => rfl
          | some said =>
              dsimp only
              cases ViewPath.resolve viewsType said none <;> rfl
  | change shared => rfl

theorem logsAlike_of_not_render {request : Request} (hrender : request.isRender = false) :
    engine.LogsAlike time host request [] := by
  intro logging settings
  have hlogged : (engine.withLogging logging).performLogged settings time host request =
      ⟨.ok ((engine.withLogging logging).perform host request).1,
        ((engine.withLogging logging).perform host request).2, []⟩ := by
    cases request <;> first | rfl | cases hrender
  refine ⟨[], fun _ => rfl, ?_⟩
  rw [hlogged, perform_withLogging host engine hrender]

theorem exists_told (request : Request) :
    ∃ told : Told, told.IsSound time ∧ engine.LogsAlike time host request told := by
  have hquiet (hrender : request.isRender = false) :
      ∃ told : Told, told.IsSound time ∧ engine.LogsAlike time host request told :=
    ⟨[], ⟨by simp, by simp⟩, logsAlike_of_not_render time host engine hrender⟩
  cases request with
  | render name data =>
      exact exists_told_render time host engine (some name)
        (fun writer => .renderNamed (engine.setup host) engine.helpers name data) rfl
        fun _ _ => rfl
  | renderSource text view data =>
      exact exists_told_render time host engine view
        (fun writer => .renderText (engine.setup host) engine.helpers text view data) rfl
        fun _ _ => rfl
  | register name helper => exact hquiet rfl
  | registerAll given => exact hquiet rfl
  | addView name text => exact hquiet rfl
  | writeFile path text => exact hquiet rfl
  | clearCache name => exact hquiet rfl
  | change shared => exact hquiet rfl

end Requests

/-! # Rows of requests -/

theorem exists_told_row (time : String) (host : Host) (engine : Engine)
    (requests : List Request) :
    ∃ told : Told, told.IsSound time ∧ ∀ logging settings, ∃ lines,
      (∀ σ, Journal.lines settings time σ (told.map Prod.fst) = .ok lines) ∧
        (engine.withLogging logging).answersLogged settings time host requests =
          ((engine.answers host requests).map .ok, lines) := by
  induction requests generalizing engine with
  | nil => exact ⟨[], ⟨by simp, by simp⟩, fun _ _ => ⟨[], fun _ => rfl, rfl⟩⟩
  | cons request rest ih =>
      rcases exists_told time host engine request with ⟨told, hsound, hfirst⟩
      rcases ih (engine.perform host request).2 with ⟨more, hmore, hrest⟩
      refine ⟨told ++ more, hsound.append hmore, fun logging settings => ?_⟩
      rcases hfirst logging settings with ⟨lines, hlines, hperform⟩
      rcases hrest logging settings with ⟨others, hothers, hanswers⟩
      refine ⟨lines ++ others, fun σ => ?_, ?_⟩
      · rw [List.map_append]
        exact Journal.lines_append _ _ (hlines σ) (hothers σ)
      · rw [answersLogged, hperform]
        dsimp only
        rw [hanswers]
        rfl

/--
Whatever the settings of the log are, and whatever the engine's own settings say of it, a row of
requests is answered as without a log: with the same outputs, includes and errors. As JSON, the
lines that are written are those that are written of everything, less the ones whose level or
component is not enabled.
-/
theorem logging_transparent (host : Host) (engine : Engine) (requests : List Request)
    (time : String) :
    ∃ told : Told,
      (∀ entry ∈ told, ∀ σ, entry.1.jsonLine time σ = .ok entry.2) ∧
        (engine.answersLogged (.everything .json) time host requests).2 = told.map Prod.snd ∧
        ∀ (logging : LogSection) (settings : LogSettings),
          ((engine.withLogging logging).answersLogged settings time host requests).1 =
              (engine.answers host requests).map .ok ∧
            (settings.format = .json →
              ((engine.withLogging logging).answersLogged settings time host requests).2 =
                (told.filter fun entry =>
                  settings.enabled entry.1.level entry.1.component).map Prod.snd) := by
  rcases exists_told_row time host engine requests with ⟨told, hsound, hall⟩
  have hfiltered (logging : LogSection) (settings : LogSettings)
      (hformat : settings.format = .json) :
      ((engine.withLogging logging).answersLogged settings time host requests).2 =
        (told.filter fun entry => entry.1.isEnabled settings).map Prod.snd := by
    rcases hall logging settings with ⟨lines, hlines, hanswers⟩
    have hjson := Journal.lines_of_json settings time hformat (σ := engine.store)
      fun entry hentry => hsound.line entry hentry engine.store
    rw [hanswers]
    exact Except.ok.inj ((hlines engine.store).symm.trans hjson)
  refine ⟨told, hsound.line, ?_, fun logging settings => ⟨?_, hfiltered logging settings⟩⟩
  · have heverything := hfiltered engine.settings.logging (.everything .json) rfl
    rwa [List.filter_eq_self.mpr hsound.enabled] at heverything
  · rcases hall logging settings with ⟨lines, _, hanswers⟩
    rw [hanswers]

def errorsOnly : LogSettings where
  level := .error
  format := .json
  showContext := .bool false
  truncateAt := 0
  switches := [("include", .bool false)]

theorem logging_transparent_repairs :
    ∃ engine : Engine,
      start false .standard ([] ++ [(.str "cache", .bool true)]) (some linkedViews) ⟨[], []⟩
          (.ofData [] []) [] = .ok engine ∧
        ∃ told : Told,
          (engine.answersLogged (.everything .json) "noon" .none repairs).2 =
              told.map Prod.snd ∧
            errorsOnly.format = .json ∧
            (engine.withLogging .standard).answersLogged errorsOnly "noon" .none repairs =
              ((engine.answers .none repairs).map .ok,
                (told.filter fun entry =>
                  errorsOnly.enabled entry.1.level entry.1.component).map Prod.snd) := by
  rcases exists_linked true with ⟨engine, hengine⟩
  rcases logging_transparent .none engine repairs "noon" with ⟨told, _, heverything, hall⟩
  rcases hall .standard errorsOnly with ⟨hanswers, hlines⟩
  exact ⟨engine, hengine, told, heverything, rfl, Prod.ext hanswers (hlines rfl)⟩

end Engine
end Stencil
