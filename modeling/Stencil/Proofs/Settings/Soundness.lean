import Stencil.Proofs.Outcome
import Stencil.Proofs.Value.Names
import Stencil.Settings.Loading

/-!
# What loaded settings hold

Settings that are loaded hold what was given under their names, or the standard value where
nothing was given, and a check has looked at nearly all of it: paths and types are texts, counts
are positive, flags are truth values, levels and formats are among those that are known. Two
things go unchecked: whether fields are shown, and the switches of the components. The check of
an extension overlooks one line break at its end.
-/

namespace Stencil

/-! # Findings -/

namespace Findings

theorem errors_foldl_add (issues : List Issue) (findings : Findings) :
    (issues.foldl add findings).errors =
      findings.errors ++ issues.filter fun issue => issue.severity == .error := by
  induction issues generalizing findings with
  | nil => simp
  | cons issue rest ih =>
      rw [List.foldl_cons, ih]
      rcases issue with ⟨path, message, severity⟩
      cases severity <;> simp [add]

theorem severity_of_isValid {issues : List Issue}
    (h : (issues.foldl add none).isValid = true) :
    ∀ issue ∈ issues, issue.severity = .warning := by
  rw [isValid, errors_foldl_add, List.isEmpty_iff, List.append_eq_nil_iff,
    List.filter_eq_nil_iff] at h
  intro issue hissue
  cases hseverity : issue.severity with
  | warning => rfl
  | error => exact absurd (beq_iff_eq.mpr hseverity) (h.2 issue hissue)

end Findings

namespace Entries

def Sets (entries : Entries Value) (name : String) (standard value : Value) : Prop :=
  (entries.named name).getD standard = value

theorem sets_getD {α : Type} {entries : Entries Value} {name : String} {standard : α}
    (read : Value → Option α) (write : α → Value)
    (h : ∀ value ∈ entries.named name, ∃ a, read value = some a ∧ value = write a) :
    entries.Sets name (write standard)
      (write (((entries.named name).bind read).getD standard)) := by
  unfold Sets
  cases hvalue : entries.named name with
  | none => rfl
  | some value =>
      rcases h value hvalue with ⟨a, hread, rfl⟩
      simp [hread]

theorem sets_choice {α : Type} {entries : Entries Value} {name : String} {standard : α}
    {all : List α} {nameOf : α → String} {ofName? : String → Option α}
    (hnames : ∀ a, ofName? (nameOf a) = some a)
    (h : ∀ value ∈ entries.named name, ∃ choice ∈ all.map nameOf, value = .str choice) :
    entries.Sets name (.str (nameOf standard))
      (.str (nameOf ((((entries.named name).bind Value.string?).bind ofName?).getD standard))) := by
  rw [Option.bind_assoc]
  refine sets_getD (fun v => v.string?.bind ofName?) (fun a => .str (nameOf a))
    fun value hvalue => ?_
  rcases h value hvalue with ⟨choice, hchoice, rfl⟩
  rcases List.mem_map.mp hchoice with ⟨a, _, rfl⟩
  exact ⟨a, by simp [Value.string?, Value.text?, Text.string?_ofString, hnames], rfl⟩

end Entries

theorem getD_of_forall {α : Type} (holds : α → Prop) {value? : Option Value} {standard : α}
    {read : Value → Option α} (hstandard : holds standard)
    (h : ∀ value ∈ value?, ∃ a, read value = some a ∧ holds a) :
    holds ((value?.bind read).getD standard) := by
  cases value? with
  | none => exact hstandard
  | some value =>
      rcases h value rfl with ⟨a, hread, ha⟩
      simpa [hread] using ha

namespace Settings

/-! # Checks -/

theorem complaint_of_valueIssues {within name : String} {entries : Entries Value}
    {complaint? : Value → Except Trouble (Option Text)} {issues : List Issue}
    (h : valueIssues within entries name complaint? = .ok issues)
    (hissues : ∀ issue ∈ issues, issue.severity = .warning) :
    ∀ value ∈ entries.named name, complaint? value = .ok none := by
  intro value hvalue
  unfold valueIssues at h
  rw [hvalue] at h
  rcases bind_eq_ok_iff.mp h with ⟨found, hfound, h⟩
  cases found with
  | none => exact hfound
  | some message =>
      cases h
      exact absurd (hissues _ (List.mem_singleton.mpr rfl)) (by simp [Issue.error])

section Complaints

variable {value : Value}

theorem text_of_pathIssue? {isPlainFile : Text → Except Trouble Bool}
    (h : pathIssue? isPlainFile value = .ok none) :
    ∃ path, value = .str path ∧ path.isEmpty = false := by
  unfold pathIssue? at h
  split at h
  · cases h
  next path hsaid =>
      rcases Option.filter_eq_some_iff.mp hsaid with ⟨htext, hpath⟩
      cases value with
      | str s =>
          cases htext
          exact ⟨path, rfl, by simpa using hpath⟩
      | _ => cases htext

theorem bare_of_isPlainExtension {text : String} (h : isPlainExtension text = true) :
    ∃ bare : String, bare.toList ≠ [] ∧ bare.toList.all isAsciiAlphanumeric = true ∧
      (text = bare ∨ text = bare ++ "\n") := by
  simp only [isPlainExtension, Bool.and_eq_true, Bool.not_eq_true', List.isEmpty_eq_false_iff] at h
  split at h
  next hlast =>
      rcases List.getLast?_eq_some_iff.mp (beq_iff_eq.mp hlast) with ⟨bare, hbare⟩
      rw [hbare, List.dropLast_concat] at h
      refine ⟨String.ofList bare, ?_, ?_, .inr ?_⟩
      · simpa using h.1
      · simpa using h.2
      · rw [← String.toList_inj, String.toList_append, String.toList_ofList, hbare]
        rfl
  next => exact ⟨text, h.1, h.2, .inl rfl⟩

theorem extension_of_typeIssue? (h : typeIssue? value = none) :
    ∃ text : String, value = .str text ∧ isPlainExtension text = true := by
  unfold typeIssue? at h
  split at h
  next text hstring =>
      rcases Option.filter_eq_some_iff.mp hstring with ⟨hstring, hplain⟩
      cases value with
      | str s => exact ⟨text, by rw [Text.ofString_of_string? hstring], hplain⟩
      | _ => cases hstring
  · cases h

theorem count_of_countIssue? {name : String} (h : countIssue? name value = none) :
    ∃ n : Int, value = .int n ∧ 0 < n := by
  cases value with
  | int n =>
      refine ⟨n, rfl, ?_⟩
      by_cases hn : n ≤ 0
      · simp [countIssue?, hn] at h
      · omega
  | _ => cases h

theorem flag_of_flagIssue? {name : String} (h : flagIssue? name value = none) :
    ∃ b, value = .bool b := by
  cases value with
  | bool b => exact ⟨b, rfl⟩
  | _ => cases h

theorem choice_of_choiceIssue? {name : String} {choices : List String}
    (h : choiceIssue? name choices value = .ok none) :
    ∃ choice ∈ choices, value = .str (.ofString choice) := by
  unfold choiceIssue? at h
  split at h
  next text =>
      by_cases hany : (choices.any fun c => text == Text.ofString c) = true
      · rcases List.any_eq_true.mp hany with ⟨choice, hmem, heq⟩
        exact ⟨choice, hmem, by rw [beq_iff_eq.mp heq]⟩
      · simp [hany] at h
  all_goals simp at h

end Complaints
end Settings

/-! # Sections -/

structure ViewSettings.IsSound (given : Entries Value) (views : ViewSettings) : Prop where
  viewsPath : given.Sets "views_path" (.str standard.viewsPath) (.str views.viewsPath)
  viewsPath_said : views.viewsPath.isEmpty = false
  viewsType : given.Sets "views_type" (.str standard.viewsType) (.str views.viewsType)
  /-- The extension is made of letters and digits. A line break may stand at its end. -/
  viewsType_plain : ∃ bare : String, bare.toList ≠ [] ∧
    bare.toList.all Settings.isAsciiAlphanumeric = true ∧
      (views.viewsType = bare ∨ views.viewsType = (bare ++ "\n" : String))
  maxIncludeDepth :
    given.Sets "max_include_depth" (.int standard.maxIncludeDepth) (.int views.maxIncludeDepth)
  maxIncludeDepth_pos : 0 < views.maxIncludeDepth
  cache : given.Sets "cache" (.bool standard.cache) (.bool views.cache)
  createViewsDir :
    given.Sets "create_views_dir" (.bool standard.createViewsDir) (.bool views.createViewsDir)

/-- Components are switches that are what is given for them, or what is given is no mapping. -/
inductive ComponentSettings.IsGiven (σ : Store) : Option Value → ComponentSettings → Prop
  | absent : IsGiven σ none standard
  | switches {value : Value} {given : Entries Value} {render inclusion expression config : Value} :
      σ.entries? value = some given →
      given.Sets "render" (.bool true) render →
      given.Sets "include" (.bool true) inclusion →
      given.Sets "expression" (.bool true) expression →
      given.Sets "config" (.bool true) config →
      IsGiven σ (some value) (.switches render inclusion expression config)
  | other {value : Value} : σ.entries? value = none → IsGiven σ (some value) (.other value)

/--
The settings of the log are what is given for them. Its level, format and limit can be used;
of its switches nothing more is known.
-/
structure LogSection.IsSound (σ : Store) (given : Entries Value) (logging : LogSection) : Prop where
  level : given.Sets "level" (.str standard.level.name) (.str logging.level.name)
  format : given.Sets "format" (.str standard.format.name) (.str logging.format.name)
  showContext : given.Sets "show_context" standard.showContext logging.showContext
  truncateAt : given.Sets "truncate_at" (.int standard.truncateAt) (.int logging.truncateAt)
  truncateAt_pos : 0 < logging.truncateAt
  components : ComponentSettings.IsGiven σ (given.named "components") logging.components

namespace Settings

/-- The entries given for a section: those of a mapping, none if the section is not named. -/
inductive Gives (σ : Store) (entries : Entries Value) (name : String) : Entries Value → Prop
  | absent : entries.named name = none → Gives σ entries name []
  | mapping {value : Value} {inner : Entries Value} : entries.named name = some value →
      σ.entries? value = some inner → Gives σ entries name inner

structure IsSound (σ : Store) (entries : Entries Value) (settings : Settings) : Prop where
  views : ∃ given, Gives σ entries "views" given ∧ settings.views.IsSound given
  logging : ∃ given, Gives σ entries "logging" given ∧ settings.logging.IsSound σ given

end Settings

theorem LogLevel.ofName?_name (level : LogLevel) : ofName? level.name = some level := by
  cases level <;> rfl

theorem LogFormat.ofName?_name (format : LogFormat) : ofName? format.name = some format := by
  cases format <;> rfl

namespace Settings

theorem isSound_of_viewIssues {isPlainFile : Text → Except Trouble Bool}
    {given : Entries Value} {issues : List Issue} (h : viewIssues isPlainFile given = .ok issues)
    (hissues : ∀ issue ∈ issues, issue.severity = .warning) :
    (ViewSettings.ofEntries given).IsSound given := by
  unfold viewIssues at h
  rcases bind_eq_ok_iff.mp h with ⟨path, hpath, h⟩
  rcases bind_eq_ok_iff.mp h with ⟨type, htype, h⟩
  rcases bind_eq_ok_iff.mp h with ⟨depth, hdepth, h⟩
  rcases bind_eq_ok_iff.mp h with ⟨cache, hcache, h⟩
  rcases bind_eq_ok_iff.mp h with ⟨create, hcreate, h⟩
  cases h
  simp only [List.mem_append, or_imp, forall_and] at hissues
  rcases hissues with ⟨⟨⟨⟨hpaths, htypes⟩, hdepths⟩, hcaches⟩, hcreates⟩
  have hpath value hvalue :=
    text_of_pathIssue? (complaint_of_valueIssues hpath hpaths value hvalue)
  have htype value hvalue := extension_of_typeIssue?
    (Except.ok.inj (complaint_of_valueIssues htype htypes value hvalue))
  have hdepth value hvalue := count_of_countIssue?
    (Except.ok.inj (complaint_of_valueIssues hdepth hdepths value hvalue))
  have hcache value hvalue := flag_of_flagIssue?
    (Except.ok.inj (complaint_of_valueIssues hcache hcaches value hvalue))
  have hcreate value hvalue := flag_of_flagIssue?
    (Except.ok.inj (complaint_of_valueIssues hcreate hcreates value hvalue))
  have hread : (ViewSettings.ofEntries given).maxIncludeDepth =
      ((given.named "max_include_depth").bind fun v => v.integer?.map Int.toNat).getD
        ViewSettings.standard.maxIncludeDepth := by
    cases hnamed : given.named "max_include_depth" <;> simp [ViewSettings.ofEntries, hnamed]
  refine
    { viewsPath := Entries.sets_getD Value.text? .str fun value hvalue => ?_
      viewsPath_said :=
        getD_of_forall (fun path : Text => path.isEmpty = false) (by decide) fun value hvalue => ?_
      viewsType := Entries.sets_getD Value.text? .str fun value hvalue => ?_
      viewsType_plain := ?_
      maxIncludeDepth := ?_
      maxIncludeDepth_pos := ?_
      cache := Entries.sets_getD Value.flag? .bool fun value hvalue => ?_
      createViewsDir := Entries.sets_getD Value.flag? .bool fun value hvalue => ?_ }
  · rcases hpath value hvalue with ⟨path, rfl, _⟩
    exact ⟨path, rfl, rfl⟩
  · rcases hpath value hvalue with ⟨path, rfl, hsaid⟩
    exact ⟨path, rfl, hsaid⟩
  · rcases htype value hvalue with ⟨text, rfl, _⟩
    exact ⟨text, rfl, rfl⟩
  · refine getD_of_forall (fun type => ∃ bare : String, bare.toList ≠ [] ∧
      bare.toList.all isAsciiAlphanumeric = true ∧
        (type = Text.ofString bare ∨ type = Text.ofString (bare ++ "\n")))
      ⟨"html", by decide, by decide, .inl rfl⟩ fun value hvalue => ?_
    rcases htype value hvalue with ⟨text, rfl, hplain⟩
    rcases bare_of_isPlainExtension hplain with ⟨bare, hbare, hall, htext⟩
    exact ⟨text, rfl, bare, hbare, hall, htext.imp (congrArg _) (congrArg _)⟩
  · rw [hread]
    refine Entries.sets_getD (fun v => v.integer?.map Int.toNat) (fun n => .int n)
      fun value hvalue => ?_
    rcases hdepth value hvalue with ⟨n, rfl, hn⟩
    exact ⟨n.toNat, rfl, by rw [Int.toNat_of_nonneg (Int.le_of_lt hn)]⟩
  · rw [hread]
    refine getD_of_forall (fun n => 0 < n) (by decide) fun value hvalue => ?_
    rcases hdepth value hvalue with ⟨n, rfl, hn⟩
    exact ⟨n.toNat, rfl, by omega⟩
  · rcases hcache value hvalue with ⟨b, rfl⟩
    exact ⟨b, rfl, rfl⟩
  · rcases hcreate value hvalue with ⟨b, rfl⟩
    exact ⟨b, rfl, rfl⟩

theorem isGiven_ofValue (σ : Store) (value : Value) :
    ComponentSettings.IsGiven σ (some value) (.ofValue σ value) := by
  unfold ComponentSettings.ofValue
  split
  next given hgiven => exact .switches hgiven rfl rfl rfl rfl
  next hgiven => exact .other hgiven

theorem isSound_of_logIssues {σ : Store} {given : Entries Value} {issues : List Issue}
    (h : logIssues given = .ok issues) (hissues : ∀ issue ∈ issues, issue.severity = .warning) :
    (LogSection.ofEntries σ given).IsSound σ given := by
  unfold logIssues at h
  rcases bind_eq_ok_iff.mp h with ⟨level, hlevel, h⟩
  rcases bind_eq_ok_iff.mp h with ⟨format, hformat, h⟩
  rcases bind_eq_ok_iff.mp h with ⟨limit, hlimit, h⟩
  cases h
  simp only [List.mem_append, or_imp, forall_and] at hissues
  rcases hissues with ⟨⟨hlevels, hformats⟩, hlimits⟩
  have hlevel value hvalue :=
    choice_of_choiceIssue? (complaint_of_valueIssues hlevel hlevels value hvalue)
  have hformat value hvalue :=
    choice_of_choiceIssue? (complaint_of_valueIssues hformat hformats value hvalue)
  have hlimit value hvalue := count_of_countIssue?
    (Except.ok.inj (complaint_of_valueIssues hlimit hlimits value hvalue))
  refine
    { level := ?_
      format := ?_
      showContext := rfl
      truncateAt := Entries.sets_getD Value.integer? .int fun value hvalue => ?_
      truncateAt_pos := getD_of_forall (fun n => 0 < n) (by decide) fun value hvalue => ?_
      components := ?_ }
  · exact Entries.sets_choice LogLevel.ofName?_name hlevel
  · exact Entries.sets_choice LogFormat.ofName?_name hformat
  · rcases hlimit value hvalue with ⟨n, rfl, _⟩
    exact ⟨n, rfl, rfl⟩
  · rcases hlimit value hvalue with ⟨n, rfl, hn⟩
    exact ⟨n, rfl, hn⟩
  · show ComponentSettings.IsGiven σ (given.named "components")
      (((given.named "components").map (.ofValue σ)).getD .standard)
    cases given.named "components" with
    | none => exact .absent
    | some value => exact isGiven_ofValue σ value

/-! # Settings -/

theorem gives_section? {σ : Store} {entries : Entries Value} {name : String}
    {names : List String} (hnames : sectionNames? (.str name) = some names)
    (h : ∀ issue ∈ entries.flatMap (nameIssues σ), issue.severity = .warning) :
    Gives σ entries name ((section? σ entries name).getD []) := by
  unfold section?
  cases hnamed : entries.named name with
  | none => exact .absent hnamed
  | some value =>
      rcases Option.map_eq_some_iff.mp hnamed with ⟨entry, hfind, rfl⟩
      have hkey : entry.1 = .str name := by
        have := List.find?_some hfind
        rw [Key.same_str] at this
        exact beq_iff_eq.mp this
      cases hinner : σ.entries? entry.2 with
      | some inner => simpa [hinner] using Gives.mapping hnamed hinner
      | none =>
          have hissue : Issue.error entry.1 (entry.1.shown ++ " must be a dictionary") ∈
              entries.flatMap (nameIssues σ) := by
            refine List.mem_flatMap.mpr ⟨entry, List.mem_of_find?_eq_some hfind, ?_⟩
            simp [nameIssues, hkey, hnames, hinner]
          exact absurd (h _ hissue) (by simp [Issue.error])

theorem checkEntries_eq (isPlainFile : Text → Except Trouble Bool) (σ : Store)
    (entries : Entries Value) :
    checkEntries isPlainFile σ entries = (do
      let views ← viewIssues isPlainFile ((section? σ entries "views").getD [])
      let logging ← logIssues ((section? σ entries "logging").getD [])
      return (entries.flatMap (nameIssues σ) ++ views ++ logging).foldl Findings.add .none) := by
  unfold checkEntries
  cases section? σ entries "views" <;> cases section? σ entries "logging" <;> rfl

theorem checks_of_checkEntries {isPlainFile : Text → Except Trouble Bool} {σ : Store}
    {entries : Entries Value} {findings : Findings}
    (h : checkEntries isPlainFile σ entries = .ok findings) :
    ∃ views logging,
      viewIssues isPlainFile ((section? σ entries "views").getD []) = .ok views ∧
        logIssues ((section? σ entries "logging").getD []) = .ok logging ∧
          findings =
            (entries.flatMap (nameIssues σ) ++ views ++ logging).foldl Findings.add .none := by
  rw [checkEntries_eq] at h
  rcases bind_eq_ok_iff.mp h with ⟨views, hviews, h⟩
  rcases bind_eq_ok_iff.mp h with ⟨logging, hlogging, h⟩
  cases h
  exact ⟨views, logging, hviews, hlogging, rfl⟩

theorem isSound_of_checkEntries {isPlainFile : Text → Except Trouble Bool} {σ : Store}
    {entries : Entries Value} {findings : Findings}
    (h : checkEntries isPlainFile σ entries = .ok findings) (hvalid : findings.isValid = true) :
    (Settings.ofEntries σ entries).IsSound σ entries := by
  rcases checks_of_checkEntries h with ⟨views, logging, hviews, hlogging, rfl⟩
  have hissues := Findings.severity_of_isValid hvalid
  simp only [List.mem_append, or_imp, forall_and] at hissues
  rcases hissues with ⟨⟨hnames, hviewIssues⟩, hlogIssues⟩
  exact
    { views := ⟨_, gives_section? rfl hnames, isSound_of_viewIssues hviews hviewIssues⟩
      logging := ⟨_, gives_section? rfl hnames, isSound_of_logIssues hlogging hlogIssues⟩ }

end Settings

namespace SettingsLoader

/--
Settings that are loaded come from a mapping. They are what is given there, or the standard
settings where nothing is given, and all but the switches of the log can be used.
-/
theorem isSound_of_loadGiven {loader after : SettingsLoader} {around : Surroundings} {σ : Store}
    {given : Value} {path : Option Text} {settings : Settings}
    (h : loader.loadGiven around σ given path = (.ok settings, after)) :
    ∃ entries, σ.entries? given = some entries ∧ settings.IsSound σ entries ∧
      after.settings = some settings := by
  unfold loadGiven at h
  split at h
  · cases h
  next accepted notices haccept =>
      cases h
      unfold accept at haccept
      rcases bind_eq_ok_iff.mp haccept with ⟨entries, hentries, haccept⟩
      rcases bind_eq_ok_iff.mp haccept with ⟨findings, hfindings, haccept⟩
      have hgiven : σ.entries? given = some entries := by
        unfold Settings.entriesOf at hentries
        split at hentries <;> cases hentries
        assumption
      by_cases hvalid : findings.isValid = true
      · rw [if_pos hvalid] at haccept
        cases haccept
        exact ⟨entries, hgiven, Settings.isSound_of_checkEntries hfindings hvalid, rfl⟩
      · rw [if_neg hvalid] at haccept
        cases haccept

/-- Both sections of these settings are looked at, and what is not given is standard. -/
theorem isSound_of_loadGiven_two :
    let σ := Store.ofData [] []
    let given : Entries Value :=
      [(.str "views", .map [(.str "views_type", .str "htm"), (.str "max_include_depth", .int 3)]),
        (.str "logging", .map [(.str "level", .str "WARN")])]
    let loaded := empty.loadGiven ⟨⟨[], []⟩, []⟩ σ (.map given) none
    let settings : Settings :=
      { views := { ViewSettings.standard with viewsType := "htm", maxIncludeDepth := 3 }
        logging := { LogSection.standard with level := .warn } }
    loaded.1 = .ok settings ∧
      ∃ entries, σ.entries? (.map given) = some entries ∧ settings.IsSound σ entries ∧
        loaded.2.settings = some settings := by
  intro σ given loaded settings
  have hloaded : loaded = (.ok settings, loaded.2) := rfl
  exact ⟨rfl, isSound_of_loadGiven hloaded⟩

/--
What is loaded need not be an extension, a flag or a record of switches: a line break stands at
the end of a type, and texts stand where truth values belong.
-/
theorem loadEntries_unsound :
    let load (entries : Entries Value) : Except Trouble Settings :=
      (empty.loadEntries ⟨⟨[], []⟩, []⟩ entries none).1
    (∃ settings, load [(.str "views", .map [(.str "views_type", .str "html\n")])] = .ok settings ∧
      settings.views.viewsType = "html\n") ∧
    (∃ settings, load [(.str "logging", .map [(.str "show_context", .str "yes")])] = .ok settings ∧
      settings.logging.showContext = .str "yes") ∧
    (∃ settings, load [(.str "logging", .map [(.str "components", .str "none")])] = .ok settings ∧
      settings.logging.components = .other (.str "none")) :=
  ⟨⟨_, rfl, rfl⟩, ⟨_, rfl, rfl⟩, ⟨_, rfl, rfl⟩⟩

end SettingsLoader
end Stencil
