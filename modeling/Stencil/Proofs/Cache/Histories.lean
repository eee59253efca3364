import Mathlib
import Stencil.Proofs.Cache.Forgetting

/-!
# What caches hold, told by what was done to them

Paths are got from a shared cache and forgotten, and each of these deeds is over before the next
one begins. Then no task ever waits for another, and what has been done tells all: a path is held
if it was got since it was last forgotten. What is held is the view of the first load that has
brought one since then, and as long as it is held, nothing is loaded for the path.
-/

namespace Stencil

variable {ε α : Type}

/-! # Histories -/

/-- Something that was done to a cache from beginning to end. -/
inductive Deed (ε α : Type) where
  /-- A path was got, with the answer and the outcomes of the loads that ran for it. -/
  | get (path : Text) (answer : Except ε α) (loads : List (Except ε α))
  /-- One path was forgotten, or every path. -/
  | forget (path : Option Text)

namespace Deed

def isGet : Deed ε α → Bool
  | get _ _ _ => true
  | forget _ => false

def loads : Deed ε α → List (Except ε α)
  | get _ _ loads => loads
  | forget _ => []

def forgets (path : Text) : Deed ε α → Bool
  | get _ _ _ => false
  | forget gone => (CacheEvent.forget gone : CacheEvent ε α).forgets path

def brought? (path : Text) : Deed ε α → Option α
  | get other _ loads => if other = path then loads.findSome? Except.toOption else none
  | forget _ => none

variable (path : Text) (history : List (Deed ε α))

def since : List (Deed ε α) :=
  history.rtakeWhile fun deed => !deed.forgets path

def IsHeld : Prop :=
  ∃ view loads, .get path (.ok view) loads ∈ since path history

/-- The view of the first load that has brought one since a path was last forgotten. -/
def firstBrought? : Option α :=
  (since path history).findSome? (brought? path)

/-! A history grows by one deed at a time. -/

variable {path history}

theorem since_concat_of_kept {deed : Deed ε α} (h : deed.forgets path = false) :
    since path (history ++ [deed]) = since path history ++ [deed] :=
  List.rtakeWhile_concat_pos _ _ _ (by rw [h]; rfl)

theorem since_concat_of_forgotten {deed : Deed ε α} (h : deed.forgets path = true) :
    since path (history ++ [deed]) = [] :=
  List.rtakeWhile_concat_neg _ _ _ (by rw [h]; simp)

theorem isHeld_concat_get {other : Text} {answer : Except ε α} {loads : List (Except ε α)} :
    IsHeld path (history ++ [.get other answer loads]) ↔
      IsHeld path history ∨ other = path ∧ ∃ view, answer = .ok view := by
  rw [IsHeld, IsHeld, since_concat_of_kept rfl]
  constructor
  · rintro ⟨view, brought, hmem⟩
    rcases List.mem_append.mp hmem with hmem | hmem
    · exact .inl ⟨view, brought, hmem⟩
    · cases List.mem_singleton.mp hmem
      exact .inr ⟨rfl, view, rfl⟩
  · rintro (⟨view, brought, hmem⟩ | ⟨rfl, view, rfl⟩)
    · exact ⟨view, brought, List.mem_append_left _ hmem⟩
    · exact ⟨view, loads, List.mem_append_right _ (List.mem_singleton_self _)⟩

theorem firstBrought?_concat_get {other : Text} {answer : Except ε α}
    {loads : List (Except ε α)} :
    firstBrought? path (history ++ [.get other answer loads]) =
      (firstBrought? path history).or
        (if other = path then loads.findSome? Except.toOption else none) := by
  rw [firstBrought?, since_concat_of_kept rfl, List.findSome?_append, List.findSome?_singleton]
  rfl

theorem firstBrought?_concat_forget {gone : Option Text} :
    firstBrought? path (history ++ [.forget gone]) =
      if (forget gone : Deed ε α).forgets path then none else firstBrought? path history := by
  cases hforgets : (forget gone : Deed ε α).forgets path with
  | true =>
      rw [firstBrought?, since_concat_of_forgotten hforgets]
      rfl
  | false =>
      rw [firstBrought?, since_concat_of_kept hforgets, List.findSome?_append,
        List.findSome?_singleton]
      exact Option.or_none

theorem isHeld_concat_forget {gone : Option Text} :
    IsHeld path (history ++ [.forget gone]) ↔
      (forget gone : Deed ε α).forgets path = false ∧ IsHeld path history := by
  cases hforgets : (forget gone : Deed ε α).forgets path with
  | true =>
      rw [IsHeld, since_concat_of_forgotten hforgets]
      simp
  | false =>
      rw [IsHeld, since_concat_of_kept hforgets]
      simp [IsHeld]

end Deed

/-! # Paths that are there -/

namespace Cache

variable {κ : Type} {cache : Cache κ} {path : Text}

theorem mem_paths_iff : path ∈ cache.paths ↔ (cache.find? path).isSome = true := by
  rw [paths, find?, Option.isSome_map, List.find?_isSome, List.mem_map]
  simp

theorem contains_iff : cache.contains path = true ↔ (cache.find? path).isSome = true := by
  rw [contains, find?, Option.isSome_map, List.find?_isSome, List.any_eq_true]

theorem nodup_insert (h : cache.paths.Nodup) (value : κ) :
    (cache.insert path value).paths.Nodup := by
  show ((cache.entries.filter _ ++ [(path, value)]).map (·.1)).Nodup
  rw [List.map_append, List.nodup_append]
  refine ⟨h.sublist (List.filter_sublist.map _), List.nodup_singleton _, ?_⟩
  intro first hfirst second hsecond
  rcases List.mem_map.mp hfirst with ⟨entry, hentry, rfl⟩
  rw [List.map_singleton, List.mem_singleton] at hsecond
  rw [hsecond]
  simpa using (List.mem_filter.mp hentry).2

theorem nodup_get (h : cache.paths.Nodup) (load : Unit → Except ε κ) :
    (cache.get path load).2.paths.Nodup := by
  unfold get
  cases cache.find? path with
  | some value => exact h
  | none =>
      dsimp only
      cases load () with
      | ok value => exact @nodup_insert _ cache.miss path h value
      | error failure => exact h

end Cache

/-! # Deeds as rows of events -/

namespace CacheEvent

def goesOn : CacheEvent ε α → Bool
  | wake _ => true
  | finish _ _ => true
  | _ => false

def ended? : CacheEvent ε α → Option (Except ε α)
  | finish _ outcome => some outcome
  | _ => none

end CacheEvent

namespace SharedCache

/-- What a deed makes of a shared cache. A task that gets a path is done in the end. -/
inductive Does (s : SharedCache ε α) : Deed ε α → SharedCache ε α → Prop
  | get {path : Text} {events : List (CacheEvent ε α)} {answer : Except ε α}
      {after : SharedCache ε α} :
      s.run? (.ask path :: events) = some after →
      (∀ event ∈ events, event.goesOn = true) →
      after.tasks[s.tasks.length]? = some ⟨path, .done answer⟩ →
      Does s (.get path answer (events.filterMap CacheEvent.ended?)) after
  | forget {path : Option Text} : Does s (.forget path) (s.forget path)

/-- What a history makes of an empty shared cache. -/
inductive Makes : List (Deed ε α) → SharedCache ε α → Prop
  | nil : Makes [] empty
  | concat {history : List (Deed ε α)} {deed : Deed ε α} {s after : SharedCache ε α} :
      Makes history s → s.Does deed after → Makes (history ++ [deed]) after

def IsQuiet (s : SharedCache ε α) : Prop :=
  ∀ task ∈ s.tasks, task.phase.isDone = true

section Quiet

variable {s t after : SharedCache ε α} {path : Text} {answer : Except ε α}
  {loads : List (Except ε α)}

theorem isQuiet_of_tasks (h : s.IsQuiet) (htasks : t.tasks = s.tasks ++ [⟨path, .done answer⟩]) :
    t.IsQuiet := by
  intro task htask
  rw [htasks, List.mem_append, List.mem_singleton] at htask
  rcases htask with htask | rfl
  · exact h task htask
  · rfl

theorem IsQuiet.step?_eq_none (h : s.IsQuiet) {event : CacheEvent ε α}
    (hevent : event.goesOn = true) : s.step? event = none := by
  cases event with
  | ask _ => cases hevent
  | forget _ => cases hevent
  | wake task =>
      show s.wake? task = none
      unfold wake?
      split
      next htask => cases h _ (List.mem_of_getElem? htask)
      · rfl
  | finish task outcome =>
      show s.finish? task outcome = none
      unfold finish?
      split
      next htask => cases h _ (List.mem_of_getElem? htask)
      · rfl

theorem IsQuiet.run?_eq_some (h : s.IsQuiet) {events : List (CacheEvent ε α)}
    (hevents : ∀ event ∈ events, event.goesOn = true) (hrun : s.run? events = some after) :
    events = [] ∧ after = s := by
  cases events with
  | nil =>
      cases hrun
      exact ⟨rfl, rfl⟩
  | cons event rest =>
      rw [run?, List.foldlM_cons, h.step?_eq_none (hevents event List.mem_cons_self)] at hrun
      cases hrun

theorem IsQuiet.step?_loading (h : s.IsQuiet) {lock : Nat} {event : CacheEvent ε α}
    (hevent : event.goesOn = true)
    (hstep : (s.add path (.loading lock)).step? event = some after) :
    ∃ outcome, event = .finish s.tasks.length outcome ∧
      after.tasks = s.tasks ++ [⟨path, .done outcome⟩] := by
  have htasks : ∀ task other phase,
      (s.add path (.loading lock)).tasks[task]? = some ⟨other, phase⟩ →
        phase.isDone = true ∨ task = s.tasks.length ∧ other = path ∧ phase = .loading lock := by
    intro task other phase htask
    rw [tasks_add, List.getElem?_append] at htask
    split at htask
    · exact .inl (h _ (List.mem_of_getElem? htask))
    next hlt =>
        rw [List.getElem?_singleton] at htask
        split at htask
        next hplace =>
            cases htask
            exact .inr ⟨by omega, rfl, rfl⟩
        · cases htask
  cases moves_of_step? hstep with
  | found _ => cases hevent
  | queued _ => cases hevent
  | begun _ _ => cases hevent
  | forgotten => cases hevent
  | served htask _ =>
      rcases htasks _ _ _ htask with hdone | ⟨_, _, hphase⟩
      · cases hdone
      · cases hphase
  | resumed htask _ _ =>
      rcases htasks _ _ _ htask with hdone | ⟨_, _, hphase⟩
      · cases hdone
      · cases hphase
  | @ended _ _ _ outcome htask =>
      rcases htasks _ _ _ htask with hdone | ⟨rfl, rfl, _⟩
      · cases hdone
      · refine ⟨outcome, rfl, ?_⟩
        rw [tasks_setPhase ((tasks_keep _ outcome).symm ▸ htask), tasks_keep, tasks_add,
          List.set_append_right _ _ (Nat.le_refl _), Nat.sub_self]
        rfl

theorem IsQuiet.ask_missing (h : s.IsQuiet) (hmissing : s.cache.find? path = none) :
    s.ask path = (s.lockFor path).2.miss.add path (.loading (s.lockFor path).1) := by
  have hfree := isBusy_eq_false h (s.lockFor path).1
  rw [← isBusy_lockFor s path] at hfree
  rw [ask, hmissing]
  dsimp only
  rw [hfree, if_neg Bool.false_ne_true]

theorem IsQuiet.ask_found (h : s.IsQuiet) {view : α} (hfound : s.cache.find? path = some view) :
    (s.ask path).IsQuiet ∧ (s.ask path).tasks = s.tasks ++ [⟨path, .done (.ok view)⟩] ∧
      (s.ask path).cache = s.cache.hit := by
  have hasked : s.ask path = s.hit.add path (.done (.ok view)) := by
    rw [ask, hfound]
  have htasks : (s.ask path).tasks = s.tasks ++ [⟨path, .done (.ok view)⟩] := by
    rw [hasked]
    rfl
  refine ⟨isQuiet_of_tasks h htasks, htasks, ?_⟩
  rw [hasked]
  rfl

theorem IsQuiet.does_get (h : s.IsQuiet) (hdoes : s.Does (.get path answer loads) after) :
    after.IsQuiet ∧ after.cache = (s.cache.get path fun _ => answer).2 ∧
      ((∃ view, s.cache.find? path = some view ∧ answer = .ok view ∧ loads = []) ∨
        s.cache.find? path = none ∧ loads = [answer]) := by
  cases hdoes with
  | @get _ events _ _ hrun hevents hdone =>
      have hrest : (s.ask path).run? events = some after := hrun
      cases hfound : s.cache.find? path with
      | some view =>
          rcases h.ask_found hfound with ⟨hquiet, htasks, hcache⟩
          rcases hquiet.run?_eq_some hevents hrest with ⟨rfl, rfl⟩
          rw [htasks, List.getElem?_concat_length] at hdone
          cases hdone
          refine ⟨hquiet, ?_, .inl ⟨view, rfl, rfl, rfl⟩⟩
          rw [hcache, Cache.get, hfound]
      | none =>
          have hasked := h.ask_missing hfound
          have htasks : (s.lockFor path).2.miss.tasks = s.tasks := tasks_lockFor s path
          have hbefore : (s.lockFor path).2.miss.IsQuiet := fun task htask =>
            h task (htasks ▸ htask)
          cases events with
          | nil =>
              cases hrest
              rw [hasked, tasks_add, htasks, List.getElem?_concat_length] at hdone
              cases hdone
          | cons event rest =>
              rcases Option.bind_eq_some_iff.mp (show (((s.ask path).step? event).bind
                fun next => next.run? rest) = some after from hrest) with ⟨next, hstep, hlater⟩
              have hloading := hasked ▸ hstep
              rcases hbefore.step?_loading (hevents event List.mem_cons_self) hloading with
                ⟨outcome, rfl, hnext⟩
              rw [htasks] at hnext
              have hquiet := isQuiet_of_tasks h hnext
              rcases hquiet.run?_eq_some
                (fun other hother => hevents other (List.mem_cons_of_mem _ hother)) hlater with
                ⟨rfl, rfl⟩
              rw [hnext, List.getElem?_concat_length] at hdone
              cases hdone
              refine ⟨hquiet, ?_, .inr ⟨rfl, rfl⟩⟩
              have hcache := cache_finish_ask h hfound fun _ => answer
              have hfinish : (s.ask path).finish? s.tasks.length answer = some after := by
                rw [← htasks]
                exact hstep
              rw [hfinish] at hcache
              exact Option.some.inj hcache

theorem IsQuiet.exists_does_get (h : s.IsQuiet) (path : Text) (load : Except ε α) :
    ∃ answer loads after, s.Does (.get path answer loads) after ∧
      ∀ outcome ∈ loads, outcome = load := by
  cases hfound : s.cache.find? path with
  | some view =>
      rcases h.ask_found hfound with ⟨_, htasks, _⟩
      have hrun : s.run? [.ask path] = some (s.ask path) := rfl
      refine ⟨.ok view, [], s.ask path, .get hrun (by simp) ?_, by simp⟩
      rw [htasks, List.getElem?_concat_length]
  | none =>
      have htasks : (s.ask path).tasks =
          s.tasks ++ [⟨path, .loading (s.lockFor path).1⟩] := by
        rw [h.ask_missing hfound, tasks_add, tasks_miss, tasks_lockFor]
      have htask : (s.ask path).tasks[s.tasks.length]? =
          some ⟨path, .loading (s.lockFor path).1⟩ := by
        rw [htasks, List.getElem?_concat_length]
      let after := ((s.ask path).keep path load).setPhase s.tasks.length (.done load)
      have hfinish : (s.ask path).finish? s.tasks.length load = some after := by
        rw [finish?, htask]
      have hrun : s.run? [.ask path, .finish s.tasks.length load] = some after := by
        show ((s.ask path).finish? s.tasks.length load).bind some = some after
        rw [hfinish]
        rfl
      have hdone : after.tasks[s.tasks.length]? = some ⟨path, .done load⟩ := by
        show (SharedCache.setPhase _ _ _).tasks[s.tasks.length]? = _
        rw [tasks_setPhase ((tasks_keep path load).symm ▸ htask), tasks_keep, htasks,
          List.getElem?_set_self (by simp)]
      exact ⟨load, [load], after, .get hrun (by simp [CacheEvent.goesOn]) hdone, by simp⟩

end Quiet

/-! # Histories, deed by deed -/

open Deed

/-- What a shared cache has kept of its history, when all tasks are done. -/
structure Remembers (history : List (Deed ε α)) (s : SharedCache ε α) : Prop where
  isQuiet : s.IsQuiet
  gets : s.cache.hits + s.cache.misses = history.countP Deed.isGet
  misses : s.cache.misses = (history.flatMap Deed.loads).length
  found : ∀ path, s.cache.find? path = firstBrought? path history
  held : ∀ path, (s.cache.find? path).isSome = true ↔ IsHeld path history
  nodup : s.cache.paths.Nodup

section Remembering

variable {history : List (Deed ε α)} {s after : SharedCache ε α}

theorem remembers_empty : Remembers [] (empty : SharedCache ε α) where
  isQuiet := fun _ htask => nomatch htask
  gets := rfl
  misses := rfl
  found := fun _ => rfl
  held := fun path => by
    constructor
    · intro h
      cases h
    · rintro ⟨_, _, hmem⟩
      cases hmem
  nodup := List.nodup_nil

theorem Remembers.get {path : Text} {answer : Except ε α} {loads : List (Except ε α)}
    (h : Remembers history s) (hdoes : s.Does (.get path answer loads) after) :
    Remembers (history ++ [.get path answer loads]) after := by
  rcases h.isQuiet.does_get hdoes with ⟨hquiet, hcache, houtcome⟩
  have hfind := fun other => Cache.find?_get s.cache path other fun _ => answer
  have hanswer : (s.cache.get path fun _ => answer).1 = answer := by
    rw [Cache.get_fst]
    rcases houtcome with ⟨view, hfound, rfl, _⟩ | ⟨hmissing, _⟩
    · rw [hfound]
      rfl
    · rw [hmissing]
      rfl
  rw [← hcache, hanswer] at hfind
  constructor
  case isQuiet => exact hquiet
  case gets =>
      rw [List.countP_append, ← h.gets, hcache, Cache.get]
      rcases houtcome with ⟨view, hfound, _, _⟩ | ⟨hmissing, _⟩
      · rw [hfound]
        show s.cache.hits + 1 + s.cache.misses = s.cache.hits + s.cache.misses + 1
        omega
      · rw [hmissing]
        cases answer <;> rfl
  case misses =>
      rw [List.flatMap_append, List.length_append, ← h.misses, hcache, Cache.get]
      rcases houtcome with ⟨view, hfound, _, rfl⟩ | ⟨hmissing, rfl⟩
      · rw [hfound]
        rfl
      · rw [hmissing]
        cases answer <;> rfl
  case found =>
      intro other
      rw [hfind, firstBrought?_concat_get, ← h.found]
      by_cases hother : other = path
      · subst hother
        rw [if_pos rfl, if_pos rfl]
        rcases houtcome with ⟨view, hfound, rfl, _⟩ | ⟨hmissing, rfl⟩
        · rw [hfound]
          rfl
        · rw [hmissing]
          simp
      · rw [if_neg hother, if_neg (Ne.symm hother), Option.or_none]
  case held =>
      intro other
      rw [hfind, isHeld_concat_get, ← h.held]
      by_cases hother : other = path
      · subst hother
        rw [if_pos rfl]
        rcases houtcome with ⟨view, hfound, rfl, _⟩ | ⟨hmissing, _⟩
        · simp [hfound, Except.toOption]
        · rw [hmissing]
          cases answer <;> simp [Except.toOption]
      · rw [if_neg hother]
        simp [Ne.symm hother]
  case nodup =>
      rw [hcache]
      exact Cache.nodup_get h.nodup _

theorem Remembers.forget (h : Remembers history s) (gone : Option Text) :
    Remembers (history ++ [.forget gone]) (s.forget gone) where
  isQuiet := by
    intro task htask
    rw [tasks_forget] at htask
    exact h.isQuiet task htask
  gets := by
    rw [List.countP_append, ← h.gets]
    cases gone <;> rfl
  misses := by
    rw [List.flatMap_append, List.length_append, ← h.misses]
    cases gone <;> rfl
  found := by
    intro path
    rw [find?_forget, firstBrought?_concat_forget, ← h.found]
    rfl
  held := by
    intro path
    rw [find?_forget, isHeld_concat_forget, ← h.held]
    show ((if (Deed.forget gone : Deed ε α).forgets path then none
      else s.cache.find? path).isSome = true ↔ _)
    cases (Deed.forget gone : Deed ε α).forgets path <;> simp
  nodup := by
    cases gone with
    | none => exact List.nodup_nil
    | some path => exact h.nodup.sublist (List.filter_sublist.map _)

theorem Remembers.does {deed : Deed ε α} (h : Remembers history s) (hdoes : s.Does deed after) :
    Remembers (history ++ [deed]) after := by
  cases deed with
  | get path answer loads => exact h.get hdoes
  | forget gone =>
      cases hdoes
      exact h.forget gone

theorem Makes.remembers (h : Makes history s) : Remembers history s := by
  induction h with
  | nil => exact remembers_empty
  | concat _ hdoes ih => exact ih.does hdoes

theorem Makes.exists_before {before later : List (Deed ε α)} {deed : Deed ε α}
    (h : Makes (before ++ deed :: later) s) :
    ∃ start next, Makes before start ∧ start.Does deed next := by
  generalize hhistory : before ++ deed :: later = history at h
  induction h generalizing later with
  | nil => simp at hhistory
  | @concat history last s after hmakes hdoes ih =>
      rcases List.eq_nil_or_concat later with rfl | ⟨front, final, rfl⟩
      · rcases List.append_inj' hhistory rfl with ⟨rfl, hlast⟩
        cases hlast
        exact ⟨s, after, hmakes, hdoes⟩
      · rw [List.concat_eq_append, ← List.cons_append, ← List.append_assoc] at hhistory
        exact ih (List.append_inj' hhistory rfl).1

end Remembering

/--
A history tells what a cache holds. Whatever was done, with loads that may fail: each get is one
hit or one miss, and each load that ran is one miss. A path is held if and only if it was got since
it was last forgotten. A get of a path that is held answers with the view of the first load that
has brought one since then, and nothing is loaded; of any other path, one load answers. There are
as many entries as paths that are held. And every get comes to its end, whatever a load brings.
-/
theorem held_until_forgotten {history : List (Deed ε α)} {s : SharedCache ε α}
    (h : Makes history s) :
    s.cache.hits + s.cache.misses = history.countP Deed.isGet ∧
    s.cache.misses = (history.flatMap Deed.loads).length ∧
    (∀ path, s.cache.contains path = true ↔ IsHeld path history) ∧
    (∀ before path answer loads later, history = before ++ .get path answer loads :: later →
      (IsHeld path before → loads = [] ∧
        ∃ view, firstBrought? path before = some view ∧ answer = .ok view) ∧
      (¬ IsHeld path before → loads = [answer])) ∧
    s.cache.size = Set.ncard {path | IsHeld path history} ∧
    (∀ path load, ∃ answer loads after, s.Does (.get path answer loads) after ∧
      ∀ outcome ∈ loads, outcome = load) := by
  have hremembers := h.remembers
  refine ⟨hremembers.gets, hremembers.misses, fun path => ?_, ?_, ?_,
    hremembers.isQuiet.exists_does_get⟩
  · rw [Cache.contains_iff, hremembers.held]
  · intro before path answer loads later hhistory
    rcases (hhistory ▸ h).exists_before with ⟨start, next, hbefore, hdoes⟩
    have hstart := hbefore.remembers
    rcases (hstart.isQuiet.does_get hdoes).2.2 with ⟨view, hfound, rfl, rfl⟩ | ⟨hmissing, rfl⟩
    · have hheld : IsHeld path before := (hstart.held path).mp (by rw [hfound]; rfl)
      refine ⟨fun _ => ⟨rfl, view, ?_, rfl⟩, fun hnot => absurd hheld hnot⟩
      rw [← hstart.found, hfound]
    · refine ⟨fun hheld => ?_, fun _ => rfl⟩
      have hsome := (hstart.held path).mpr hheld
      rw [hmissing] at hsome
      cases hsome
  · have hpaths : {path | IsHeld path history} = ↑s.cache.paths.toFinset := by
      ext path
      rw [Set.mem_ofPred_eq, ← hremembers.held, ← Cache.mem_paths_iff]
      simp
    rw [hpaths, Set.ncard_coe_finset, List.toFinset_card_of_nodup hremembers.nodup, Cache.paths,
      List.length_map]
    rfl

/--
The first load of a path fails and a second one brings its view, which is found until the path is
forgotten; then a load brings another view. A second path keeps its view meanwhile.
-/
theorem held_until_forgotten_reloaded :
    let history : List (Deed Unit Nat) :=
      [.get "a" (.error ()) [.error ()], .get "a" (.ok 7) [.ok 7], .get "b" (.ok 5) [.ok 5],
        .get "a" (.ok 7) [], .forget (some "a"), .get "a" (.ok 9) [.ok 9]]
    let final : SharedCache Unit Nat :=
      { cache := ⟨[("b", 5), ("a", 9)], 1, 4⟩
        locks := [("b", 1), ("a", 2)]
        lockCount := 3
        tasks := [⟨"a", .done (.error ())⟩, ⟨"a", .done (.ok 7)⟩, ⟨"b", .done (.ok 5)⟩,
          ⟨"a", .done (.ok 7)⟩, ⟨"a", .done (.ok 9)⟩] }
    Makes history final ∧ 1 + 4 = history.countP Deed.isGet ∧
      4 = (history.flatMap Deed.loads).length ∧ IsHeld "a" history ∧
      2 = Set.ncard {path | IsHeld path history} := by
  intro history final
  have hget {s after : SharedCache Unit Nat} {earlier : List (Deed Unit Nat)} {path : Text}
      {answer : Except Unit Nat} (h : Makes earlier s) (events : List (CacheEvent Unit Nat))
      (hrun : s.run? (.ask path :: events) = some after)
      (hevents : events.all CacheEvent.goesOn = true)
      (hdone : after.tasks[s.tasks.length]? = some ⟨path, .done answer⟩) :
      Makes (earlier ++ [.get path answer (events.filterMap CacheEvent.ended?)]) after :=
    h.concat (.get hrun (List.all_eq_true.mp hevents) hdone)
  have hfailed := @hget _ _ _ "a" (.error ()) .nil [.finish 0 (.error ())] rfl rfl rfl
  have hbrought := @hget _ _ _ "a" (.ok 7) hfailed [.finish 1 (.ok 7)] rfl rfl rfl
  have hother := @hget _ _ _ "b" (.ok 5) hbrought [.finish 2 (.ok 5)] rfl rfl rfl
  have hfound := @hget _ _ _ "a" (.ok 7) hother [] rfl rfl rfl
  have hforgotten := hfound.concat (@Does.forget _ _ _ (some "a"))
  have hmakes : Makes history final :=
    @hget _ _ _ "a" (.ok 9) hforgotten [.finish 4 (.ok 9)] rfl rfl rfl
  rcases held_until_forgotten hmakes with ⟨hgets, hmisses, hheld, _, hsize, _⟩
  exact ⟨hmakes, hgets, hmisses, (hheld "a").mp rfl, hsize⟩

end SharedCache
end Stencil
