import Stencil.Proofs.Settings.Soundness

/-!
# Settings that are refused

A load either brings settings, which are the current ones from then on, or fails and leaves the
loader as it was. Settings that cannot be used are refused with an error of their own. A check
stumbles where it looks at a value before it knows what the value is: a level or a format that is
a container cannot be looked up among the known ones, and a path of views that is too long cannot
be followed. Such a failure comes out as it is.
-/

namespace Stencil

/-- Containers cannot be looked up among names, wherever they are kept. -/
def Value.isContainer : Value → Bool
  | list _ => true
  | map _ => true
  | jsonTools => true
  | shared _ => true
  | scope _ => true
  | _ => false

/-! # Paths -/

namespace FileTree

theorem fault_of_find? {tree : FileTree} {path : Text} {fault : PathFault}
    (h : tree.find? path = .error fault) : fault = .tooLong := by
  unfold find? at h
  split at h
  · cases h
  · split at h
    · cases h
      rfl
    · split at h <;> cases h
      rfl

theorem fault_of_isPlainFile {tree : FileTree} {path : Text} {fault : PathFault}
    (h : tree.isPlainFile path = .error fault) : fault = .tooLong := by
  unfold isPlainFile at h
  cases hfound : tree.find? path with
  | ok found => rw [hfound] at h; cases h
  | error other =>
      rw [hfound] at h
      cases h
      exact fault_of_find? hfound

theorem find?_empty (tree : FileTree) : tree.find? "" = .ok (tree.entry? tree.home) := by
  have hnames : names "" = .ok [] := rfl
  have hlength : ¬ maxPath < ((Text.ofString "").bytes?.getD []).length := by decide
  have horigin : origin tree.home "" = tree.home := rfl
  unfold find?
  rw [hnames, horigin]
  simp only [if_neg hlength, walk]

theorem asked_eq_error_iff {α : Type} {answer : Except PathFault α} {trouble : Trouble} :
    asked answer = .error trouble ↔ ∃ fault, answer = .error fault ∧ fault.trouble = trouble := by
  cases answer with
  | error fault =>
      show (Except.error fault.trouble : Except Trouble α) = _ ↔ _
      simp
  | ok a =>
      show (Except.ok a : Except Trouble α) = _ ↔ _
      simp

end FileTree

theorem PathFault.trouble_ne_view (fault : PathFault) (error : ViewError) :
    fault.trouble ≠ .view error := by
  cases fault <;> simp [trouble]

namespace Settings

/-! # Checks that stumble -/

section Stumbling

variable {entries : Entries Value} {trouble : Trouble}

theorem valueIssues_eq_error_iff {within name : String}
    {complaint? : Value → Except Trouble (Option Text)} :
    valueIssues within entries name complaint? = .error trouble ↔
      ∃ value ∈ entries.named name, complaint? value = .error trouble := by
  unfold valueIssues
  cases entries.named name with
  | none => simp
  | some value =>
      simp only [Option.mem_some_iff, exists_eq_left', bind_eq_error_iff]
      constructor
      · rintro (h | ⟨found, _, h⟩)
        · exact h
        · cases found <;> cases h
      · exact .inl

theorem pathIssue?_eq_error_iff {isPlainFile : Text → Except Trouble Bool} {value : Value} :
    pathIssue? isPlainFile value = .error trouble ↔
      ∃ path, value = .str path ∧ path.isEmpty = false ∧ isPlainFile path = .error trouble := by
  unfold pathIssue?
  constructor
  · intro h
    split at h
    · cases h
    next path hsaid =>
        rcases Option.filter_eq_some_iff.mp hsaid with ⟨htext, hpath⟩
        rcases bind_eq_error_iff.mp h with h | ⟨isFile, _, h⟩
        · cases value with
          | str s =>
              cases htext
              exact ⟨path, rfl, by simpa using hpath, h⟩
          | _ => cases htext
        · cases isFile <;> cases h
  · rintro ⟨path, rfl, hpath, h⟩
    have hsaid : Text.said (Value.text? (.str path)) = some path := by
      simp [Text.said, Value.text?, hpath]
    rw [hsaid]
    exact bind_eq_error_iff.mpr (.inl h)

theorem choiceIssue?_eq_error_iff {name : String} {choices : List String} {value : Value} :
    choiceIssue? name choices value = .error trouble ↔
      value.isContainer = true ∧ (Failure.notKey "container").trouble = trouble := by
  cases value <;> simp [choiceIssue?, Value.isContainer, Value.key?]

theorem viewIssues_eq_error_iff {isPlainFile : Text → Except Trouble Bool} :
    viewIssues isPlainFile entries = .error trouble ↔
      ∃ path, entries.named "views_path" = some (.str path) ∧ path.isEmpty = false ∧
        isPlainFile path = .error trouble := by
  simp only [viewIssues, bind_eq_error_iff, valueIssues_eq_error_iff, pathIssue?_eq_error_iff,
    pure, Except.pure, reduceCtorEq, and_false, exists_false, or_false, Option.mem_def]
  constructor
  · rintro ⟨_, hvalue, path, rfl, hpath, h⟩
    exact ⟨path, hvalue, hpath, h⟩
  · rintro ⟨path, hvalue, hpath, h⟩
    exact ⟨_, hvalue, path, rfl, hpath, h⟩

theorem logIssues_eq_error_iff :
    logIssues entries = .error trouble ↔
      (Failure.notKey "container").trouble = trouble ∧
        ∃ name ∈ ["level", "format"], ∃ value ∈ entries.named name, value.isContainer = true := by
  simp only [logIssues, bind_eq_error_iff, valueIssues_eq_error_iff, choiceIssue?_eq_error_iff,
    pure, Except.pure, reduceCtorEq, and_false, exists_false, or_false, Option.mem_def,
    List.mem_cons, List.not_mem_nil, exists_eq_or_imp, exists_eq_left]
  constructor
  · rintro (⟨value, hvalue, hcontainer, htrouble⟩ | ⟨_, _, value, hvalue, hcontainer, htrouble⟩)
    · exact ⟨htrouble, .inl ⟨value, hvalue, hcontainer⟩⟩
    · exact ⟨htrouble, .inr ⟨value, hvalue, hcontainer⟩⟩
  · rintro ⟨htrouble, h⟩
    cases hlevel : valueIssues "logging" entries "level"
      (choiceIssue? "level" (LogLevel.all.map LogLevel.name)) with
    | error other =>
        rcases valueIssues_eq_error_iff.mp hlevel with ⟨value, hvalue, hcheck⟩
        exact .inl ⟨value, hvalue, (choiceIssue?_eq_error_iff.mp hcheck).1, htrouble⟩
    | ok issues =>
        rcases h with ⟨value, hvalue, hcontainer⟩ | ⟨value, hvalue, hcontainer⟩
        · have hcheck : valueIssues "logging" entries "level"
              (choiceIssue? "level" (LogLevel.all.map LogLevel.name)) = .error trouble :=
            valueIssues_eq_error_iff.mpr
              ⟨value, hvalue, choiceIssue?_eq_error_iff.mpr ⟨hcontainer, htrouble⟩⟩
          rw [hlevel] at hcheck
          cases hcheck
        · exact .inr ⟨issues, rfl, value, hvalue, hcontainer, htrouble⟩

end Stumbling

/-! # Loads -/

/-- A check stumbles over a path of views that is too long and over a choice that is a container. -/
inductive Stumbles (files : FileTree) (σ : Store) (entries : Entries Value) : Prop
  | path {given : Entries Value} {path : Text} (hgiven : section? σ entries "views" = some given)
      (hnamed : given.named "views_path" = some (.str path))
      (hlong : files.isPlainFile path = .error .tooLong) : Stumbles files σ entries
  | choice {given : Entries Value} {name : String} {value : Value}
      (hgiven : section? σ entries "logging" = some given) (hname : name ∈ ["level", "format"])
      (hnamed : given.named name = some value) (hcontainer : value.isContainer = true) :
      Stumbles files σ entries

theorem mem_section {σ : Store} {entries : Entries Value} {name key : String} {value : Value}
    (h : ((section? σ entries name).getD []).named key = some value) :
    ∃ given, section? σ entries name = some given ∧ given.named key = some value := by
  cases hgiven : section? σ entries name with
  | none =>
      rw [hgiven] at h
      cases h
  | some given =>
      rw [hgiven] at h
      exact ⟨given, rfl, h⟩

theorem stumbles_of_checkEntries {around : Surroundings} {σ : Store} {entries : Entries Value}
    {trouble : Trouble} (h : checkEntries around.isPlainFile σ entries = .error trouble) :
    Stumbles around.files σ entries ∧ ∀ error, trouble ≠ .view error := by
  simp only [checkEntries_eq, bind_eq_error_iff, pure, Except.pure, reduceCtorEq, and_false,
    exists_false, or_false, viewIssues_eq_error_iff, logIssues_eq_error_iff] at h
  rcases h with ⟨path, hnamed, _, hpath⟩ | ⟨_, _, rfl, name, hname, value, hvalue, hcontainer⟩
  · rcases mem_section hnamed with ⟨given, hgiven, hnamed⟩
    rcases FileTree.asked_eq_error_iff.mp hpath with ⟨fault, hfault, rfl⟩
    cases FileTree.fault_of_isPlainFile hfault
    exact ⟨.path hgiven hnamed hfault, PathFault.trouble_ne_view _⟩
  · rcases mem_section hvalue with ⟨given, hgiven, hvalue⟩
    exact ⟨.choice hgiven hname hvalue hcontainer, fun error h => by cases h⟩

theorem isEmpty_of_tooLong {files : FileTree} {path : Text}
    (h : files.isPlainFile path = .error .tooLong) : path.isEmpty = false := by
  rcases path with ⟨points⟩
  cases points with
  | nil =>
      have hfound : files.isPlainFile ⟨[]⟩ = _ := congrArg (Except.map _) (files.find?_empty)
      rw [hfound] at h
      cases h
  | cons point rest => rfl

theorem checkEntries_of_stumbles {around : Surroundings} {σ : Store} {entries : Entries Value}
    (h : Stumbles around.files σ entries) :
    ∃ trouble, checkEntries around.isPlainFile σ entries = .error trouble := by
  rw [checkEntries_eq]
  cases hviews : viewIssues around.isPlainFile ((section? σ entries "views").getD []) with
  | error trouble => exact ⟨trouble, rfl⟩
  | ok views =>
      cases h with
      | @path given path hgiven hnamed hpath =>
          have herror : viewIssues around.isPlainFile ((section? σ entries "views").getD []) =
              .error PathFault.tooLong.trouble := by
            rw [hgiven]
            exact viewIssues_eq_error_iff.mpr ⟨path, hnamed, isEmpty_of_tooLong hpath,
              FileTree.asked_eq_error_iff.mpr ⟨_, hpath, rfl⟩⟩
          rw [hviews] at herror
          cases herror
      | choice hgiven hname hvalue hcontainer =>
          rw [hgiven]
          exact ⟨_, bind_eq_error_iff.mpr (.inr ⟨views, rfl, bind_eq_error_iff.mpr
            (.inl (logIssues_eq_error_iff.mpr ⟨rfl, _, hname, _, hvalue, hcontainer⟩))⟩)⟩

end Settings

namespace SettingsLoader

/--
A load of settings that are given as a mapping brings settings, which are the current ones from
then on, or is refused with `CONFIG_INVALID`. If it stumbles, another failure comes out. A load
that fails leaves the loader as it was.
-/
theorem loadGiven_settles {σ : Store} {given : Value} {entries : Entries Value}
    (loader : SettingsLoader) (around : Surroundings) (path : Option Text)
    (hgiven : σ.entries? given = some entries) :
    let loaded := loader.loadGiven around σ given path
    (¬ Settings.Stumbles around.files σ entries →
      (∃ settings, loaded.1 = .ok settings ∧ loaded.2.current = .ok settings ∧
        loaded.2.path = path) ∨
      ∃ error, loaded = (.error (.view error), loader) ∧ error.code = "CONFIG_INVALID") ∧
    (Settings.Stumbles around.files σ entries →
      ∃ trouble, loaded = (.error trouble, loader) ∧ ∀ error, trouble ≠ .view error) := by
  have haccept : accept around σ given = (do
      let findings ← Settings.checkEntries around.isPlainFile σ entries
      if findings.isValid then
        return (.ofEntries σ entries, findings.warnings.map Notice.warning ++ [Notice.loaded])
      else throw (.view (settingsError (errorSummary findings.errors)))) := by
    rw [accept, Settings.entriesOf, hgiven]
    rfl
  cases hcheck : Settings.checkEntries around.isPlainFile σ entries with
  | error trouble =>
      rcases Settings.stumbles_of_checkEntries hcheck with ⟨hstumbles, hview⟩
      rw [hcheck] at haccept
      rw [loadGiven, haccept]
      exact ⟨fun h => absurd hstumbles h, fun _ => ⟨trouble, rfl, hview⟩⟩
  | ok findings =>
      have hstands : ¬ Settings.Stumbles around.files σ entries := by
        intro hstumbles
        rcases Settings.checkEntries_of_stumbles hstumbles with ⟨trouble, htrouble⟩
        rw [hcheck] at htrouble
        cases htrouble
      rw [hcheck] at haccept
      by_cases hvalid : findings.isValid = true
      · replace haccept := haccept.trans (if_pos hvalid)
        rw [loadGiven, haccept]
        exact ⟨fun _ => .inl ⟨_, rfl, rfl, rfl⟩, fun h => absurd h hstands⟩
      · replace haccept := haccept.trans (if_neg hvalid)
        rw [loadGiven, haccept]
        exact ⟨fun _ => .inr ⟨_, rfl, rfl⟩, fun h => absurd h hstands⟩

/-- A level that is not known is refused, and the standard settings loaded before still stand. -/
theorem loadGiven_settles_unknown :
    let σ := Store.ofData [] []
    let entries : Entries Value := [(.str "logging", .map [(.str "level", .str "LOUD")])]
    let around : Surroundings := ⟨⟨[], []⟩, []⟩
    let loader := (empty.loadStandard around).2
    let loaded := loader.loadGiven around σ (.map entries) none
    σ.entries? (.map entries) = some entries ∧
    (¬ Settings.Stumbles around.files σ entries →
      (∃ settings, loaded.1 = .ok settings ∧ loaded.2.current = .ok settings ∧
        loaded.2.path = none) ∨
      ∃ error, loaded = (.error (.view error), loader) ∧ error.code = "CONFIG_INVALID") ∧
    (Settings.Stumbles around.files σ entries →
      ∃ trouble, loaded = (.error trouble, loader) ∧ ∀ error, trouble ≠ .view error) := by
  intro σ entries around loader loaded
  exact ⟨rfl, loadGiven_settles loader around none rfl⟩

/-- A level that is a row of values is not refused: the failure to look it up comes out. -/
theorem loadEntries_stumbles :
    let loaded := empty.loadEntries ⟨⟨[], []⟩, []⟩
      [(.str "logging", .map [(.str "level", .list [])])] none
    ∃ trouble, loaded = (.error trouble, empty) ∧ trouble.kind = "TypeError" ∧
      ∀ error, trouble ≠ .view error := by
  refine ⟨(Failure.notKey "container").trouble, rfl, rfl, fun error h => ?_⟩
  cases h

end SettingsLoader
end Stencil
