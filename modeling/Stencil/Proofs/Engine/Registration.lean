import Mathlib
import Stencil.Proofs.Engine.Reachable
import Stencil.Proofs.Expression.Naming
import Stencil.Proofs.Value.Bindings

/-!
# Registered helpers

An application registers helpers one by one, or the entries of a mapping one after the other, up
to the first that is refused. What is refused changes nothing, but the entries before it stay. All
helpers of an engine in use were there from the start or passed the check, so each has a name that
reads as an expression, but for a line break that may follow it.
-/

namespace Stencil

namespace Helpers

/-! # One helper -/

structure IsFree (name : String) : Prop where
  identifier : isHelperName name = true
  unreserved : name ∉ reservedWords

structure IsValid (name helper : Value) : Prop where
  free : ∃ text : String, name = .str text ∧ IsFree text
  function : helper.isCallable = true

theorem IsValid.isFree {text : String} {helper : Value} (h : IsValid (.str text) helper) :
    IsFree text := by
  rcases h.free with ⟨other, hother, hfree⟩
  rwa [Text.ofString_injective (Value.str.inj hother)]

theorem eq_str_of_string? {value : Value} {name : String} (h : value.string? = some name) :
    value = .str name := by
  cases value with
  | str s => rw [Text.ofString_of_string? h]
  | _ => cases h

variable (σ : Store) (helpers : Helpers)

theorem register_cases (name helper : Value) :
    (∃ text : String, name = .str text ∧ IsValid (.str text) helper ∧
      helpers.register σ name helper = .ok (helpers.set text helper)) ∨
    (¬ IsValid name helper ∧
      ∃ detail, helpers.register σ name helper = .error (invalid detail)) := by
  unfold register
  cases hfound : name.string?.filter isHelperName with
  | none =>
      refine .inr ⟨fun hvalid => ?_, _, rfl⟩
      rcases hvalid.free with ⟨text, rfl, hfree⟩
      have hstring : (Value.str text).string? = some text := Text.string?_ofString text
      rw [hstring, Option.filter_some, if_pos hfree.identifier] at hfound
      cases hfound
  | some text =>
      rcases Option.filter_eq_some_iff.mp hfound with ⟨htext, hname⟩
      cases eq_str_of_string? htext
      by_cases hword : text ∈ reservedWords
      · have hrefused : reservedWords.contains text = true := List.contains_iff_mem.mpr hword
        refine .inr ⟨fun hvalid => hvalid.isFree.unreserved hword, ?_⟩
        dsimp only
        rw [if_pos hrefused]
        exact ⟨_, rfl⟩
      · have hfree : ¬ reservedWords.contains text = true := by
          rw [List.contains_iff_mem]
          exact hword
        dsimp only
        rw [if_neg hfree]
        cases hcall : helper.isCallable with
        | true => exact .inl ⟨text, rfl, ⟨⟨text, rfl, hname, hword⟩, hcall⟩, rfl⟩
        | false =>
            refine .inr ⟨fun hvalid => ?_, _, rfl⟩
            rw [hvalid.function] at hcall
            cases hcall

/-! # Rows of helpers -/

/-- Helpers with an entry put among them, if its key is a name. -/
def put (helpers : Helpers) (entry : Key × Value) : Helpers :=
  (Value.ofKey entry.1).string?.elim helpers fun name => helpers.set name entry.2

def override (helpers : Helpers) (entries : Entries Value) : Helpers :=
  entries.foldl put helpers

theorem put_of_name {entry : Key × Value} {name : String} (h : Value.ofKey entry.1 = .str name) :
    helpers.put entry = helpers.set name entry.2 := by
  have hstring : (Value.str name).string? = some name := Text.string?_ofString name
  rw [put, h, hstring]
  rfl

theorem lookup_set (helpers : Helpers) (name other : String) (helper : Value) :
    (helpers.set name helper).lookup other =
      if name = other then some helper else helpers.lookup other := by
  induction helpers with
  | nil =>
      rw [set, List.lookup_cons, List.lookup_nil]
      grind
  | cons entry rest ih =>
      rcases entry with ⟨n, v⟩
      rw [set]
      split
      · rw [List.lookup_cons, List.lookup_cons]
        grind
      · rw [List.lookup_cons, List.lookup_cons, ih]
        grind

theorem lookup_put (helpers : Helpers) (entry : Key × Value) (name : String) :
    (helpers.put entry).lookup name =
      if entry.1.same (.str name) then some entry.2 else helpers.lookup name := by
  rw [Key.same_str]
  by_cases hname : ∃ text : String, Value.ofKey entry.1 = .str text
  · rcases hname with ⟨text, htext⟩
    have hkey : entry.1 = .str text := by
      cases hentry : entry.1 <;> rw [hentry] at htext <;> cases htext
      rfl
    rw [helpers.put_of_name htext, lookup_set, hkey]
    simp only [beq_iff_eq, Key.str_eq_iff]
  · have hother : entry.1 ≠ .str name := fun hkey => hname ⟨name, by rw [hkey]; rfl⟩
    rw [if_neg (by simpa using hother), put]
    cases htext : (Value.ofKey entry.1).string? with
    | none => rfl
    | some text => exact absurd ⟨text, eq_str_of_string? htext⟩ hname

theorem lookup_override (helpers : Helpers) (entries : Entries Value) (name : String) :
    (helpers.override entries).lookup name =
      (entries.latest? (.str name)).or (helpers.lookup name) := by
  induction entries using List.reverseRecOn with
  | nil => rfl
  | append_singleton entries last ih =>
      rw [override, List.foldl_append, Entries.latest?_concat]
      refine (lookup_put _ last name).trans ?_
      split
      · rfl
      · exact ih

theorem registerEntries_cases (entries : Entries Value) :
    ((∀ entry ∈ entries, IsValid (.ofKey entry.1) entry.2) ∧
      helpers.registerEntries σ entries = (.ok (), helpers.override entries)) ∨
    ∃ before bad after, entries = before ++ bad :: after ∧
      (∀ entry ∈ before, IsValid (.ofKey entry.1) entry.2) ∧ ¬ IsValid (.ofKey bad.1) bad.2 ∧
      ∃ detail, helpers.registerEntries σ entries =
        (.error (invalid detail), helpers.override before) := by
  induction entries generalizing helpers with
  | nil => exact .inl ⟨by simp, rfl⟩
  | cons entry rest ih =>
      rcases helpers.register_cases σ (.ofKey entry.1) entry.2 with
        ⟨text, hname, hvalid, hregister⟩ | ⟨hinvalid, detail, hrefused⟩
      · have hrest : helpers.registerEntries σ (entry :: rest) =
            (helpers.put entry).registerEntries σ rest := by
          rw [registerEntries, hregister, helpers.put_of_name hname]
        rw [← hname] at hvalid
        rw [hrest]
        rcases ih (helpers.put entry) with
          ⟨hall, hwhole⟩ | ⟨before, bad, after, rfl, hbefore, hbad, detail, hrun⟩
        · exact .inl ⟨List.forall_mem_cons.mpr ⟨hvalid, hall⟩, hwhole⟩
        · exact .inr ⟨entry :: before, bad, after, rfl,
            List.forall_mem_cons.mpr ⟨hvalid, hbefore⟩, hbad, detail, hrun⟩
      · refine .inr ⟨[], entry, rest, rfl, by simp, hinvalid, detail, ?_⟩
        rw [registerEntries, hrefused]
        rfl

/-! # All helpers -/

theorem exists_word {name : String} (h : isHelperName name = true) :
    ∃ word : String, isName word.toList = true ∧ (name = word ∨ name = word ++ "\n") := by
  by_cases hbreak : name.toList.getLast? = some '\n'
  · have hword : isName name.toList.dropLast = true := by simpa [isHelperName, hbreak] using h
    refine ⟨String.ofList name.toList.dropLast, by rwa [String.toList_ofList], .inr ?_⟩
    have hchars := List.dropLast_append_getLast? '\n' hbreak
    rw [← String.toList_inj, String.toList_append, String.toList_ofList]
    exact hchars.symm
  · exact ⟨name, by simpa [isHelperName, hbreak] using h, .inl rfl⟩

/-- A helper that the engine was made with, or that has passed the check. -/
structure IsRegistered (entry : String × Value) : Prop where
  free : IsFree entry.1
  function : entry.2.isCallable = true ∨ entry.1 = "JSON" ∧ entry.2 = .jsonTools

theorem isRegistered_builtin : ∀ entry ∈ builtinHelpers, IsRegistered entry := by
  have hfree : ∀ name ∈ builtinHelpers.map Prod.fst, IsFree name := by
    intro name hname
    simp only [builtinHelpers, List.map_cons, List.map_nil, List.mem_cons, List.not_mem_nil,
      or_false] at hname
    rcases hname with rfl | rfl | rfl | rfl | rfl | rfl | rfl <;>
      exact ⟨by decide, by decide⟩
  intro entry hentry
  refine ⟨hfree entry.1 (List.mem_map_of_mem hentry), ?_⟩
  simp only [builtinHelpers, List.mem_cons, List.not_mem_nil, or_false] at hentry
  rcases hentry with rfl | rfl | rfl | rfl | rfl | rfl | rfl
  all_goals first
    | exact .inl rfl
    | exact .inr ⟨rfl, rfl⟩

theorem mem_of_mem_set {helpers : Helpers} {name : String} {helper : Value}
    {entry : String × Value} (h : entry ∈ helpers.set name helper) :
    entry = (name, helper) ∨ entry ∈ helpers := by
  induction helpers with
  | nil => exact .inl (List.mem_singleton.mp h)
  | cons first rest ih =>
      rw [set] at h
      split at h
      · rcases List.mem_cons.mp h with hnew | hold
        · exact .inl hnew
        · exact .inr (List.mem_cons_of_mem _ hold)
      · rcases List.mem_cons.mp h with rfl | hlater
        · exact .inr List.mem_cons_self
        · exact (ih hlater).imp id (List.mem_cons_of_mem _)

variable {σ helpers} (h : ∀ entry ∈ helpers, IsRegistered entry)

include h

theorem isRegistered_register {name helper : Value} {after : Helpers}
    (hafter : helpers.register σ name helper = .ok after) :
    ∀ entry ∈ after, IsRegistered entry := by
  rcases helpers.register_cases σ name helper with
    ⟨text, -, hvalid, hregister⟩ | ⟨-, detail, hrefused⟩
  · cases hregister.symm.trans hafter
    intro entry hentry
    rcases mem_of_mem_set hentry with rfl | hold
    · exact ⟨hvalid.isFree, .inl hvalid.function⟩
    · exact h entry hold
  · cases hrefused.symm.trans hafter

theorem isRegistered_registerEntries (entries : Entries Value) :
    ∀ entry ∈ (helpers.registerEntries σ entries).2, IsRegistered entry := by
  induction entries generalizing helpers with
  | nil => exact h
  | cons entry rest ih =>
      rw [registerEntries]
      split
      · next hnext => exact ih (isRegistered_register h hnext)
      · exact h

theorem isRegistered_registerAll (given : Value) :
    ∀ entry ∈ (helpers.registerAll σ given).2, IsRegistered entry := by
  rw [registerAll]
  split
  · exact isRegistered_registerEntries h _
  · exact h

end Helpers

namespace Engine

theorem code_invalid (detail : String) : (Helpers.invalid detail).code = "HELPER_INVALID" :=
  rfl

/--
Registering a mapping puts all its entries among the helpers, if they are valid. If one is not,
it fails, and the entries before the first such one stay registered; what is no mapping changes
nothing. A helper that is put there hides what its name meant before, and no other.
-/
theorem registerAll_up_to_invalid (engine : Engine) (given : Value) :
    (∀ (helpers : Helpers) (entries : Entries Value) (name : String),
      (helpers.override entries).lookup name =
        (entries.latest? (.str name)).or (helpers.lookup name)) ∧
    ((∃ entries, engine.store.entries? given = some entries ∧
        (∀ entry ∈ entries, Helpers.IsValid (.ofKey entry.1) entry.2) ∧
        engine.registerAll given =
          (.ok (), { engine with helpers := engine.helpers.override entries })) ∨
      ∃ e : ViewError, e.code = "HELPER_INVALID" ∧
        ((engine.store.entries? given = none ∧ engine.registerAll given = (.error e, engine)) ∨
          ∃ before bad after,
            engine.store.entries? given = some (before ++ bad :: after) ∧
            (∀ entry ∈ before, Helpers.IsValid (.ofKey entry.1) entry.2) ∧
            ¬ Helpers.IsValid (.ofKey bad.1) bad.2 ∧
            engine.registerAll given =
              (.error e, { engine with helpers := engine.helpers.override before }))) := by
  refine ⟨Helpers.lookup_override, ?_⟩
  cases hentries : engine.store.entries? given with
  | none =>
      have hrefused :
          ∃ detail, engine.registerAll given = (.error (Helpers.invalid detail), engine) := by
        rw [registerAll, Helpers.registerAll, hentries]
        exact ⟨_, rfl⟩
      rcases hrefused with ⟨detail, hrefused⟩
      exact .inr ⟨_, code_invalid detail, .inl ⟨rfl, hrefused⟩⟩
  | some entries =>
      have hrun : engine.registerAll given =
          ((engine.helpers.registerEntries engine.store entries).1,
            { engine with
              helpers := (engine.helpers.registerEntries engine.store entries).2 }) := by
        rw [registerAll, Helpers.registerAll, hentries]
      rw [hrun]
      rcases engine.helpers.registerEntries_cases engine.store entries with
        ⟨hall, hwhole⟩ | ⟨before, bad, after, rfl, hbefore, hbad, detail, hstopped⟩
      · rw [hwhole]
        exact .inl ⟨entries, rfl, hall, rfl⟩
      · rw [hstopped]
        exact .inr ⟨_, code_invalid detail, .inr ⟨before, bad, after, rfl, hbefore, hbad, rfl⟩⟩

/-! # Engines in use -/

theorem helpers_of_start {ownLog : Bool} {logging : LogSection} {given : Entries Value}
    {memory : Option GivenViews} {files : FileTree} {store : Store} {helpers : Entries Value}
    {engine : Engine} (h : start ownLog logging given memory files store helpers = .ok engine) :
    engine.helpers = (Helpers.registerAll store builtinHelpers (.map helpers)).2 := by
  rcases bind_eq_ok_iff.mp h with ⟨first, hbare, h⟩
  rcases isFresh_of_bare hbare with ⟨hfresh, hbuiltin⟩
  split at h
  · next started hstarted =>
      cases h
      have hafter : engine.helpers =
          (Helpers.registerAll first.store first.helpers (.map helpers)).2 :=
        (congrArg (fun run => run.2.helpers) hstarted).symm
      rw [hafter, hfresh.store, hbuiltin]
  · cases h

theorem isRegistered_perform {engine : Engine}
    (h : ∀ entry ∈ engine.helpers, Helpers.IsRegistered entry) (host : Host) (request : Request) :
    ∀ entry ∈ (engine.perform host request).2.helpers, Helpers.IsRegistered entry := by
  cases request with
  | register name helper =>
      show ∀ entry ∈ (engine.register name helper).2.helpers, Helpers.IsRegistered entry
      rw [Engine.register]
      split
      · next hafter => exact Helpers.isRegistered_register h hafter
      · exact h
  | registerAll given => exact Helpers.isRegistered_registerAll h given
  | addView name text =>
      show ∀ entry ∈ (engine.addView name text).2.helpers, Helpers.IsRegistered entry
      rw [Engine.addView]
      split
      · split <;> exact h
      · exact h
  | clearCache name =>
      show ∀ entry ∈ (engine.clearCache name).2.helpers, Helpers.IsRegistered entry
      rw [Engine.clearCache]
      split
      · exact h
      · exact h
      · split <;> exact h
  | _ => exact h

theorem Reachable.isRegistered {engine : Engine} (h : engine.Reachable) :
    ∀ entry ∈ engine.helpers, Helpers.IsRegistered entry := by
  induction h with
  | start h =>
      rw [helpers_of_start h]
      exact Helpers.isRegistered_registerAll Helpers.isRegistered_builtin _
  | startFromFile h =>
      rcases bind_eq_ok_iff.mp h with ⟨settings, _, h⟩
      rcases bind_eq_ok_iff.mp h with ⟨first, hstart, h⟩
      cases h
      show ∀ entry ∈ first.helpers, Helpers.IsRegistered entry
      rw [helpers_of_start hstart]
      exact Helpers.isRegistered_registerAll Helpers.isRegistered_builtin _
  | perform _ host request ih => exact isRegistered_perform ih host request

/--
Every helper of an engine in use has an identifier for a name, perhaps with a line break behind
it, and the name compiles to what the identifier means. So the name compiles to itself just if no
line break is there; and without one it is no reserved word. All helpers but the built-in mapping
`JSON` are functions.
-/
theorem Reachable.helper_names {engine : Engine} (h : engine.Reachable) {name : String}
    {helper : Value} (hentry : (name, helper) ∈ engine.helpers) :
    (∃ word : String, isName word.toList = true ∧ Expr.compile name = .ok (.ofWord word) ∧
      (name = word ∧ word ∉ Helpers.reservedWords ∨ name = word ++ "\n")) ∧
    (Expr.compile name = .ok (.name name) ↔ isName name.toList = true) ∧
    (helper.isCallable = true ∨ name = "JSON" ∧ helper = .jsonTools) := by
  rcases h.isRegistered _ hentry with ⟨⟨hidentifier, hunreserved⟩, hfunction⟩
  rcases Helpers.exists_word hidentifier with ⟨word, hword, hname⟩
  have hcompile : Expr.compile name = .ok (.ofWord word) := by
    rcases hname with rfl | rfl
    · exact compile_word hword
    · exact compile_append_break hword
  refine ⟨⟨word, hword, hcompile, ?_⟩, ⟨fun hitself => ?_, fun hclean => ?_⟩, hfunction⟩
  · rcases hname with rfl | hbroken
    · exact .inl ⟨rfl, hunreserved⟩
    · exact .inr hbroken
  · rw [hcompile, Except.ok.injEq] at hitself
    rw [Expr.ofWord_eq_name hitself]
    exact hword
  · exact compile_name hclean hunreserved

def noViews : GivenViews where
  viewsType := "html"
  views := []

theorem exists_started : ∃ engine : Engine, engine.Reachable ∧ engine.store = .ofData [] [] ∧
    engine.helpers = builtinHelpers := by
  have hstarts : (start false .standard [] (some noViews) ⟨[], []⟩ (.ofData [] []) []).isOk =
      true := by
    cbv
  rcases exists_of_isOk hstarts with ⟨engine, hstart⟩
  exact ⟨engine, .start hstart, (isFresh_of_start hstart).store, helpers_of_start hstart⟩

theorem exists_broken_name : ∃ engine : Engine, engine.Reachable ∧
    ("up\n", .callable (.builtin .upper)) ∈ engine.helpers := by
  rcases exists_started with ⟨engine, hreachable, hstore, hhelpers⟩
  refine ⟨_, hreachable.perform .none (.register (.str "up\n") (.callable (.builtin .upper))), ?_⟩
  show _ ∈ (engine.register (.str "up\n") (.callable (.builtin .upper))).2.helpers
  have hregister : engine.helpers.register engine.store (.str "up\n")
      (.callable (.builtin .upper)) =
        .ok (builtinHelpers ++ [("up\n", .callable (.builtin .upper))]) := by
    rw [hstore, hhelpers]
    cbv
  rw [register, hregister]
  exact List.mem_append_right _ List.mem_cons_self

/-- The name of such a helper compiles to another one. -/
theorem broken_name_compiles : ∃ engine : Engine, engine.Reachable ∧
    ∃ entry ∈ engine.helpers, Expr.compile entry.1 ≠ .ok (.name entry.1) := by
  rcases exists_broken_name with ⟨engine, hreachable, hentry⟩
  refine ⟨engine, hreachable, _, hentry, ?_⟩
  have hcompile : Expr.compile ("up" ++ "\n") = .ok (.name "up") :=
    compile_append_break (by decide)
  show Expr.compile ("up" ++ "\n") ≠ .ok (.name ("up" ++ "\n"))
  rw [hcompile]
  simp

theorem Reachable.helper_names_broken : ∃ engine : Engine, engine.Reachable ∧
    ("up\n", .callable (.builtin .upper)) ∈ engine.helpers ∧
    (Expr.compile "up\n" = .ok (.name "up\n") ↔ isName "up\n".toList = true) := by
  rcases exists_broken_name with ⟨engine, hreachable, hentry⟩
  exact ⟨engine, hreachable, hentry, (Reachable.helper_names hreachable hentry).2.1⟩

def halfValid : Value :=
  .map [(.str "shout", .callable (.builtin .upper)), (.str "1st", .callable (.builtin .upper))]

/-- The first of two helpers stays registered where the second is refused. -/
theorem registerAll_not_atomic : ∃ engine : Engine, engine.Reachable ∧
    (∃ e, (engine.registerAll halfValid).1 = .error e) ∧
      (engine.registerAll halfValid).2.helpers ≠ engine.helpers := by
  rcases exists_started with ⟨engine, hreachable, hstore, hhelpers⟩
  have hrun : engine.registerAll halfValid =
      ((engine.helpers.registerAll engine.store halfValid).1,
        { engine with helpers := (engine.helpers.registerAll engine.store halfValid).2 }) :=
    rfl
  refine ⟨engine, hreachable, ?_, fun hsame => ?_⟩
  · rw [hrun, hstore, hhelpers]
    exact ⟨_, rfl⟩
  · have hbefore : engine.helpers.lookup "shout" = none := by
      rw [hhelpers]
      cbv
    have hafter : (engine.registerAll halfValid).2.helpers.lookup "shout" =
        some (.callable (.builtin .upper)) := by
      rw [hrun, hstore, hhelpers]
      cbv
    rw [hsame, hbefore] at hafter
    cases hafter

end Engine
end Stencil
