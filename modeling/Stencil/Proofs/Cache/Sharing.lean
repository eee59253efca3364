import Mathlib
import Stencil.Cache.Shared
import Stencil.Proofs.Cache.Answers

/-!
# Shared caches load once

Any number of tasks ask a shared cache for paths, in any order, and loads may fail. As long as
nothing is forgotten, at most one load of a path runs at a time, since a task loads only under the
lock of its path and looks again when it has got it. So at most one load of a path succeeds, and
what it brings is the answer to every task that gets one.

What happens is a row of events. Its passages are the events together with the states around them;
the loads that start and what they bring are read off the passages, not off the counts that the
cache keeps.
-/

namespace Stencil

variable {ε α : Type}

namespace TaskPhase

def isLoading : TaskPhase ε α → Bool
  | loading _ => true
  | _ => false

def isWaiting : TaskPhase ε α → Bool
  | waiting _ => true
  | _ => false

theorem isWaiting_of_isDone {phase : TaskPhase ε α} (h : phase.isDone = true) :
    phase.isWaiting = false := by
  cases phase with
  | done _ => rfl
  | waiting _ => cases h
  | loading _ => cases h

end TaskPhase

namespace CacheEvent

def isAsk : CacheEvent ε α → Bool
  | ask _ => true
  | _ => false

def isForget : CacheEvent ε α → Bool
  | forget _ => true
  | _ => false

end CacheEvent

namespace SharedCache

/-! # Passages -/

structure Passage (ε α : Type) where
  before : SharedCache ε α
  event : CacheEvent ε α
  after : SharedCache ε α

def passages (s : SharedCache ε α) : List (CacheEvent ε α) → List (Passage ε α)
  | [] => []
  | event :: rest =>
      match s.step? event with
      | some after => ⟨s, event, after⟩ :: passages after rest
      | none => []

def isLoading (s : SharedCache ε α) (task : Nat) : Bool :=
  s.tasks[task]?.any fun t => t.phase.isLoading

namespace Passage

/-- How many loads start: tasks load after the event that did not load before it. -/
def loadsStarted (passage : Passage ε α) : Nat :=
  (List.range passage.after.tasks.length).countP fun task =>
    passage.after.isLoading task && !passage.before.isLoading task

def brought? (path : Text) (passage : Passage ε α) : Option α :=
  match passage.event with
  | .finish task (.ok value) =>
      if passage.before.tasks[task]?.any (·.path == path) then some value else none
  | _ => none

end Passage

def loadsStarted (s : SharedCache ε α) (events : List (CacheEvent ε α)) : Nat :=
  ((s.passages events).map Passage.loadsStarted).sum

def brought (s : SharedCache ε α) (path : Text) (events : List (CacheEvent ε α)) : List α :=
  (s.passages events).filterMap (Passage.brought? path)

/-! # Steps -/

inductive Moves (s : SharedCache ε α) : CacheEvent ε α → SharedCache ε α → Prop
  /-- What is asked for is there. -/
  | found {path : Text} {value : α} : s.cache.find? path = some value →
      Moves s (.ask path) (s.hit.add path (.done (.ok value)))
  /-- Somebody is before the task at the lock. -/
  | queued {path : Text} : s.cache.find? path = none →
      Moves s (.ask path) ((s.lockFor path).2.add path (.waiting (s.lockFor path).1))
  /-- Nobody is at the lock, and the task loads. -/
  | begun {path : Text} : s.cache.find? path = none →
      s.isBusy (s.lockFor path).1 = false →
      Moves s (.ask path) ((s.lockFor path).2.miss.add path (.loading (s.lockFor path).1))
  /-- Somebody has loaded the path while the task waited. -/
  | served {task lock : Nat} {path : Text} {value : α} :
      s.tasks[task]? = some ⟨path, .waiting lock⟩ → s.cache.find? path = some value →
      Moves s (.wake task) (s.hit.setPhase task (.done (.ok value)))
  /-- The lock is free and the path still not there: the task loads. -/
  | resumed {task lock : Nat} {path : Text} :
      s.tasks[task]? = some ⟨path, .waiting lock⟩ → s.isHeld lock = false →
      s.cache.find? path = none →
      Moves s (.wake task) (s.miss.setPhase task (.loading lock))
  /-- A load ends. -/
  | ended {task lock : Nat} {path : Text} {result : Except ε α} :
      s.tasks[task]? = some ⟨path, .loading lock⟩ →
      Moves s (.finish task result) ((s.keep path result).setPhase task (.done result))
  | forgotten {path : Option Text} : Moves s (.forget path) (s.forget path)

theorem moves_of_step? {s after : SharedCache ε α} {event : CacheEvent ε α}
    (h : s.step? event = some after) : Moves s event after := by
  cases event with
  | ask path =>
      cases h
      unfold ask
      cases hfound : s.cache.find? path with
      | some value => exact .found hfound
      | none =>
          dsimp only
          rw [isBusy_lockFor]
          by_cases hbusy : s.isBusy (s.lockFor path).1 = true
          · rw [if_pos hbusy]
            exact .queued hfound
          · rw [if_neg hbusy]
            exact .begun hfound (Bool.eq_false_iff.mpr hbusy)
  | wake task =>
      simp only [step?, wake?] at h
      split at h
      next path lock htask =>
          by_cases hheld : s.isHeld lock = true
          · rw [if_pos hheld] at h
            cases h
          · rw [if_neg hheld] at h
            cases hfound : s.cache.find? path with
            | some value =>
                rw [hfound] at h
                cases h
                exact .served htask hfound
            | none =>
                rw [hfound] at h
                cases h
                exact .resumed htask (Bool.eq_false_iff.mpr hheld) hfound
      · cases h
  | finish task result =>
      simp only [step?, finish?] at h
      split at h
      next path lock htask =>
          cases h
          exact .ended htask
      · cases h
  | forget path =>
      cases h
      exact .forgotten

/-! # Tasks -/

section Tasks

variable {s : SharedCache ε α} {path : Text} {phase old : TaskPhase ε α} {task : Nat}

theorem tasks_add : (s.add path phase).tasks = s.tasks ++ [⟨path, phase⟩] := rfl

theorem tasks_setPhase (h : s.tasks[task]? = some ⟨path, old⟩) :
    (s.setPhase task phase).tasks = s.tasks.set task ⟨path, phase⟩ := by
  rcases List.getElem?_eq_some_iff.mp h with ⟨hlt, _⟩
  show s.tasks.modify task _ = _
  refine List.ext_getElem? fun other => ?_
  rw [List.getElem?_modify, List.getElem?_set]
  by_cases hother : task = other
  · subst hother
    rw [if_pos rfl, if_pos hlt, h]
    simp
  · simp [hother]

theorem mem_tasks_add {t : CacheTask ε α} :
    t ∈ (s.add path phase).tasks ↔ t ∈ s.tasks ∨ t = ⟨path, phase⟩ := by
  rw [tasks_add, List.mem_append, List.mem_singleton]

theorem mem_tasks_setPhase (h : s.tasks[task]? = some ⟨path, old⟩) {t : CacheTask ε α}
    (ht : t ∈ (s.setPhase task phase).tasks) : t ∈ s.tasks ∨ t = ⟨path, phase⟩ := by
  rw [tasks_setPhase h] at ht
  exact List.mem_or_eq_of_mem_set ht

theorem countP_add (test : CacheTask ε α → Bool) :
    (s.add path phase).tasks.countP test =
      s.tasks.countP test + if test ⟨path, phase⟩ then 1 else 0 := by
  rw [tasks_add, List.countP_append, List.countP_singleton]

theorem countP_setPhase (h : s.tasks[task]? = some ⟨path, old⟩) (phase : TaskPhase ε α)
    (test : CacheTask ε α → Bool) :
    (s.setPhase task phase).tasks.countP test + (if test ⟨path, old⟩ then 1 else 0) =
      s.tasks.countP test + if test ⟨path, phase⟩ then 1 else 0 := by
  rcases List.getElem?_eq_some_iff.mp h with ⟨hlt, hget⟩
  rw [tasks_setPhase h, List.countP_set hlt, hget]
  by_cases hold : test ⟨path, old⟩ = true
  · have hpos : 0 < s.tasks.countP test :=
      List.countP_pos_iff.mpr ⟨_, List.mem_of_getElem? h, hold⟩
    rw [if_pos hold]
    omega
  · rw [if_neg hold]
    omega

theorem isLoading_add (other : Nat) :
    (s.add path phase).isLoading other =
      if other = s.tasks.length then phase.isLoading else s.isLoading other := by
  unfold isLoading
  rw [tasks_add]
  by_cases hother : other = s.tasks.length
  · rw [if_pos hother, hother, List.getElem?_concat_length]
    rfl
  · rw [if_neg hother]
    by_cases hlt : other < s.tasks.length
    · rw [List.getElem?_append_left hlt]
    · rw [List.getElem?_eq_none (by simp; omega), List.getElem?_eq_none (by omega)]

theorem isLoading_setPhase (h : s.tasks[task]? = some ⟨path, old⟩) (other : Nat) :
    (s.setPhase task phase).isLoading other =
      if other = task then phase.isLoading else s.isLoading other := by
  rcases List.getElem?_eq_some_iff.mp h with ⟨hlt, _⟩
  unfold isLoading
  rw [tasks_setPhase h, List.getElem?_set]
  by_cases hother : task = other
  · rw [if_pos hother, if_pos hlt, if_pos hother.symm]
    rfl
  · rw [if_neg hother, if_neg (Ne.symm hother)]

end Tasks

/-! # Order -/

inductive Fits (s : SharedCache ε α) : CacheTask ε α → Prop
  | waiting {path : Text} {lock : Nat} : s.lock? path = some lock → Fits s ⟨path, .waiting lock⟩
  | loading {path : Text} {lock : Nat} : s.lock? path = some lock → s.cache.find? path = none →
      Fits s ⟨path, .loading lock⟩
  | answered {path : Text} {value : α} : s.cache.find? path = some value →
      Fits s ⟨path, .done (.ok value)⟩
  | failed {path : Text} {error : ε} : Fits s ⟨path, .done (.error error)⟩

def waiting (s : SharedCache ε α) : Nat :=
  s.tasks.countP fun task => task.phase.isWaiting

/--
A shared cache in which nothing has been forgotten: tasks wait and load under the lock of their
path, one at a time, and every task has been counted once unless it waits.
-/
structure IsOrderly (s : SharedCache ε α) : Prop where
  fits : ∀ task ∈ s.tasks, s.Fits task
  loads_le : ∀ path, s.loads path ≤ 1
  counted : s.cache.hits + s.cache.misses + s.waiting = s.tasks.length

def loadsPath (path : Text) (task : CacheTask ε α) : Bool :=
  task.path == path && task.phase.isLoading

theorem loads_eq (s : SharedCache ε α) (path : Text) :
    s.loads path = s.tasks.countP (loadsPath path) := by
  refine List.countP_congr fun task _ => ?_
  rcases task with ⟨other, phase⟩
  cases phase <;> rfl

theorem loads_eq_zero {s : SharedCache ε α} {path : Text}
    (h : ∀ lock, (⟨path, .loading lock⟩ : CacheTask ε α) ∉ s.tasks) : s.loads path = 0 := by
  rw [loads_eq, List.countP_eq_zero]
  rintro ⟨other, phase⟩ htask hloads
  rcases Bool.and_eq_true_iff.mp hloads with ⟨hpath, hloading⟩
  cases beq_iff_eq.mp hpath
  cases phase with
  | loading lock => exact h lock htask
  | _ => cases hloading

theorem loads_ne_zero {s : SharedCache ε α} {path : Text} {lock : Nat}
    (h : (⟨path, .loading lock⟩ : CacheTask ε α) ∈ s.tasks) : s.loads path ≠ 0 := by
  rw [loads_eq]
  exact Nat.ne_of_gt (List.countP_pos_iff.mpr ⟨_, h, by simp [loadsPath, TaskPhase.isLoading]⟩)

section Order

variable {s : SharedCache ε α}

theorem lockFor_of_lock? {path : Text} {lock : Nat} (h : s.lock? path = some lock) :
    s.lockFor path = (lock, s) := by
  rw [lockFor, h]

theorem lock?_lockFor {path other : Text} {lock : Nat} (h : s.lock? other = some lock) :
    (s.lockFor path).2.lock? other = some lock := by
  unfold lockFor
  split
  · exact h
  · rcases Option.map_eq_some_iff.mp h with ⟨entry, hentry, hlock⟩
    show ((s.locks ++ [(path, s.lockCount)]).find? _).map _ = _
    rw [List.find?_append, hentry, Option.some_or, Option.map_some, hlock]

theorem lock?_lockFor_self (path : Text) :
    (s.lockFor path).2.lock? path = some (s.lockFor path).1 := by
  cases hlock : s.lock? path with
  | some lock =>
      rw [lockFor_of_lock? hlock]
      exact hlock
  | none =>
      have hfind : s.locks.find? (fun entry => entry.1 == path) = none :=
        Option.map_eq_none_iff.mp hlock
      rw [lockFor, hlock]
      show ((s.locks ++ [(path, s.lockCount)]).find? _).map _ = _
      rw [List.find?_append, hfind, Option.none_or, List.find?_cons, beq_self_eq_true]
      rfl

theorem Fits.mono {t : SharedCache ε α} {task : CacheTask ε α} (h : s.Fits task)
    (hlock : ∀ lock, s.lock? task.path = some lock → t.lock? task.path = some lock)
    (hfind : t.cache.find? task.path = s.cache.find? task.path) : t.Fits task := by
  cases h with
  | waiting h => exact .waiting (hlock _ h)
  | loading h hmissing => exact .loading (hlock _ h) (hfind.trans hmissing)
  | answered h => exact .answered (hfind.trans h)
  | failed => exact .failed

theorem loads_of_isHeld {path : Text} {lock : Nat} (hfits : ∀ task ∈ s.tasks, s.Fits task)
    (hlock : ∀ held, s.lock? path = some held → held = lock) (hheld : s.isHeld lock = false) :
    s.loads path = 0 := by
  refine loads_eq_zero fun held htask => ?_
  have hsame : held = lock := by
    cases hfits _ htask with
    | loading h _ => exact hlock held h
  have hall := List.any_eq_false.mp hheld _ htask
  exact hall (beq_iff_eq.mpr hsame)

theorem isHeld_of_isBusy {lock : Nat} (h : s.isBusy lock = false) : s.isHeld lock = false := by
  simp only [isBusy, isHeld, List.any_eq_false, Bool.or_eq_true, not_or] at h ⊢
  exact fun task htask => (h task htask).1

theorem find?_keep {path : Text} (h : s.cache.find? path = none) (result : Except ε α)
    (other : Text) :
    (s.keep path result).cache.find? other =
      if other = path then result.toOption else s.cache.find? other := by
  cases result with
  | ok value => exact Cache.find?_insert _ _ _ _
  | error error =>
      by_cases hother : other = path
      · rw [if_pos hother, hother]
        exact h
      · rw [if_neg hother]
        rfl

theorem IsOrderly.missing (h : s.IsOrderly) {path : Text} {task lock : Nat}
    (htask : s.tasks[task]? = some ⟨path, .loading lock⟩) : s.cache.find? path = none := by
  cases h.fits _ (List.mem_of_getElem? htask) with
  | loading _ hmissing => exact hmissing

end Order

/-! # Counting tasks -/

section Counting

variable {s : SharedCache ε α} {path : Text} {phase old : TaskPhase ε α} {task : Nat}

theorem loads_add (other : Text) :
    (s.add path phase).loads other =
      s.loads other + if path = other ∧ phase.isLoading = true then 1 else 0 := by
  simp only [loads_eq, countP_add, loadsPath, Bool.and_eq_true, beq_iff_eq]

theorem loads_setPhase (h : s.tasks[task]? = some ⟨path, old⟩) (phase : TaskPhase ε α)
    (other : Text) :
    (s.setPhase task phase).loads other +
        (if path = other ∧ old.isLoading = true then 1 else 0) =
      s.loads other + if path = other ∧ phase.isLoading = true then 1 else 0 := by
  simpa only [loads_eq, loadsPath, Bool.and_eq_true, beq_iff_eq] using
    countP_setPhase h phase (loadsPath other)

theorem waiting_add :
    (s.add path phase).waiting = s.waiting + if phase.isWaiting = true then 1 else 0 :=
  countP_add _

theorem waiting_setPhase (h : s.tasks[task]? = some ⟨path, old⟩) (phase : TaskPhase ε α) :
    (s.setPhase task phase).waiting + (if old.isWaiting = true then 1 else 0) =
      s.waiting + if phase.isWaiting = true then 1 else 0 :=
  countP_setPhase h phase _

/-! What changes the cache or the locks only leaves the tasks as they are. -/

@[simp] theorem tasks_hit (s : SharedCache ε α) : s.hit.tasks = s.tasks := rfl

@[simp] theorem tasks_miss (s : SharedCache ε α) : s.miss.tasks = s.tasks := rfl

@[simp] theorem tasks_keep (path : Text) (result : Except ε α) :
    (s.keep path result).tasks = s.tasks := by
  cases result <;> rfl

@[simp] theorem loads_hit (other : Text) : s.hit.loads other = s.loads other := rfl

@[simp] theorem loads_miss (other : Text) : s.miss.loads other = s.loads other := rfl

@[simp] theorem loads_keep (result : Except ε α) (other : Text) :
    (s.keep path result).loads other = s.loads other := by
  simp [loads_eq]

@[simp] theorem loads_lockFor (other : Text) : (s.lockFor path).2.loads other = s.loads other := by
  simp [loads_eq]

@[simp] theorem waiting_hit : s.hit.waiting = s.waiting := rfl

@[simp] theorem waiting_miss : s.miss.waiting = s.waiting := rfl

@[simp] theorem waiting_keep (result : Except ε α) :
    (s.keep path result).waiting = s.waiting := by
  simp [SharedCache.waiting]

@[simp] theorem waiting_lockFor : (s.lockFor path).2.waiting = s.waiting := by
  simp [SharedCache.waiting]

theorem IsOrderly.loads_ended (h : s.IsOrderly) {lock : Nat} {result : Except ε α}
    (htask : s.tasks[task]? = some ⟨path, .loading lock⟩) :
    ((s.keep path result).setPhase task (.done result)).loads path = 0 := by
  have hcount := loads_setPhase (s := s.keep path result)
    ((tasks_keep path result).symm ▸ htask) (.done result) path
  have hle := h.loads_le path
  simp only [loads_keep, TaskPhase.isLoading, and_self, if_true, Bool.false_eq_true, and_false,
    if_false] at hcount
  omega

end Counting

/-! # Order is kept -/

section Keeping

variable {s after : SharedCache ε α} {event : CacheEvent ε α}

theorem IsOrderly.loads_le_step (h : s.IsOrderly) (hmoves : s.Moves event after) (other : Text) :
    after.loads other ≤ 1 := by
  have hle := h.loads_le other
  cases hmoves with
  | found _ => simpa [loads_add, TaskPhase.isLoading] using hle
  | queued _ => simpa [loads_add, TaskPhase.isLoading] using hle
  | @begun path _ hbusy =>
      have hzero : s.loads path = 0 :=
        loads_of_isHeld h.fits (fun held hheld => by rw [lockFor_of_lock? hheld])
          (isHeld_of_isBusy hbusy)
      simp only [loads_add, loads_miss, loads_lockFor]
      split
      next hpath =>
          rw [← hpath.1]
          omega
      next => exact hle
  | @served _ _ _ value htask _ =>
      have hcount := loads_setPhase (s := s.hit) htask (.done (.ok value)) other
      simp only [loads_hit, TaskPhase.isLoading, Bool.false_eq_true, and_false, if_false] at hcount
      omega
  | @resumed _ lock path htask hheld _ =>
      have hlock : s.lock? path = some lock := by
        cases h.fits _ (List.mem_of_getElem? htask) with
        | waiting hlock => exact hlock
      have hzero : s.loads path = 0 :=
        loads_of_isHeld h.fits (fun held hsame => Option.some.inj (hsame.symm.trans hlock)) hheld
      have hcount := loads_setPhase (s := s.miss) htask (.loading lock) other
      simp only [loads_miss, TaskPhase.isLoading, Bool.false_eq_true, and_false, if_false,
        and_true] at hcount
      split at hcount
      next hpath =>
          rw [← hpath] at hcount ⊢
          omega
      next => omega
  | @ended task lock path result htask =>
      have hcount := loads_setPhase (s := s.keep path result)
        ((tasks_keep path result).symm ▸ htask) (.done result) other
      simp only [loads_keep, TaskPhase.isLoading, Bool.false_eq_true, and_false, if_false] at hcount
      omega
  | @forgotten path => cases path <;> exact hle

theorem IsOrderly.counted_step (h : s.IsOrderly) (hmoves : s.Moves event after) :
    after.cache.hits + after.cache.misses + after.waiting = after.tasks.length := by
  have hcounted := h.counted
  cases hmoves with
  | found _ =>
      rw [waiting_add, tasks_add, List.length_append]
      show s.cache.hits + 1 + s.cache.misses + s.waiting = s.tasks.length + 1
      omega
  | queued _ =>
      rw [waiting_add, tasks_add, List.length_append, tasks_lockFor, waiting_lockFor]
      show (s.lockFor _).2.cache.hits + (s.lockFor _).2.cache.misses + (s.waiting + 1) =
        s.tasks.length + 1
      rw [cache_lockFor]
      omega
  | @begun path _ _ =>
      rw [waiting_add, tasks_add, List.length_append, waiting_miss, waiting_lockFor]
      show (s.lockFor path).2.cache.hits + ((s.lockFor path).2.cache.misses + 1) + s.waiting =
        (s.lockFor path).2.tasks.length + 1
      rw [cache_lockFor, tasks_lockFor]
      omega
  | @served _ _ _ value htask _ =>
      have hwaiting := waiting_setPhase (s := s.hit) htask (.done (.ok value))
      rw [tasks_setPhase (s := s.hit) htask, List.length_set]
      simp only [waiting_hit, TaskPhase.isWaiting, Bool.false_eq_true, if_true, if_false]
        at hwaiting
      show s.cache.hits + 1 + s.cache.misses + _ = s.tasks.length
      omega
  | @resumed _ lock _ htask _ _ =>
      have hwaiting := waiting_setPhase (s := s.miss) htask (.loading lock)
      rw [tasks_setPhase (s := s.miss) htask, List.length_set]
      simp only [waiting_miss, TaskPhase.isWaiting, Bool.false_eq_true, if_true, if_false]
        at hwaiting
      show s.cache.hits + (s.cache.misses + 1) + _ = s.tasks.length
      omega
  | @ended _ _ path result htask =>
      have hkeep : (s.keep path result).tasks[_]? = _ := (tasks_keep path result).symm ▸ htask
      have hwaiting := waiting_setPhase hkeep (.done result)
      rw [tasks_setPhase hkeep, List.length_set, tasks_keep]
      simp only [waiting_keep, TaskPhase.isWaiting, Bool.false_eq_true, if_false] at hwaiting
      have hcache : (s.keep path result).cache.hits = s.cache.hits ∧
          (s.keep path result).cache.misses = s.cache.misses := by
        cases result <;> exact ⟨rfl, rfl⟩
      show (s.keep path result).cache.hits + (s.keep path result).cache.misses + _ = _
      omega
  | @forgotten path => cases path <;> exact hcounted

theorem IsOrderly.fits_step (h : s.IsOrderly) (hmoves : s.Moves event after)
    (hkept : event.isForget = false) : ∀ task ∈ after.tasks, after.Fits task := by
  intro t ht
  cases hmoves with
  | found hfound =>
      rcases mem_tasks_add.mp ht with ht | rfl
      · exact (h.fits t ht).mono (fun _ h => h) rfl
      · exact .answered hfound
  | @queued path _ =>
      have hcache (other : Text) : (s.lockFor path).2.cache.find? other = s.cache.find? other := by
        rw [cache_lockFor]
      rcases mem_tasks_add.mp ht with ht | rfl
      · rw [tasks_lockFor] at ht
        exact (h.fits t ht).mono (fun _ => lock?_lockFor) (hcache t.path)
      · exact .waiting (lock?_lockFor_self path)
  | @begun path hmissing _ =>
      have hcache (other : Text) :
          (s.lockFor path).2.miss.cache.find? other = s.cache.find? other :=
        congrArg (fun cache => cache.find? other) (cache_lockFor s path)
      rcases mem_tasks_add.mp ht with ht | rfl
      · replace ht : t ∈ (s.lockFor path).2.tasks := ht
        rw [tasks_lockFor] at ht
        exact (h.fits t ht).mono (fun _ => lock?_lockFor) (hcache t.path)
      · exact .loading (lock?_lockFor_self path) ((hcache path).trans hmissing)
  | served htask hfound =>
      rcases mem_tasks_setPhase (s := s.hit) htask ht with ht | rfl
      · exact (h.fits t ht).mono (fun _ h => h) rfl
      · exact .answered hfound
  | resumed htask _ hmissing =>
      rcases mem_tasks_setPhase (s := s.miss) htask ht with ht | rfl
      · exact (h.fits t ht).mono (fun _ h => h) rfl
      · cases h.fits _ (List.mem_of_getElem? htask) with
        | waiting hlock => exact .loading hlock hmissing
  | @ended task lock path result htask =>
      have hkeep : (s.keep path result).tasks[task]? = _ := (tasks_keep path result).symm ▸ htask
      have hmissing := h.missing htask
      have hfind := find?_keep hmissing result
      have hlocks : ∀ other, (s.keep path result).lock? other = s.lock? other := by
        cases result <;> exact fun _ => rfl
      rcases mem_tasks_setPhase hkeep ht with hold | rfl
      · rw [tasks_keep] at hold
        by_cases hpath : t.path = path
        · cases h.fits t hold with
          | waiting hlock => exact .waiting ((hlocks _).trans hlock)
          | loading _ _ =>
              cases hpath
              exact absurd (h.loads_ended htask) (loads_ne_zero ht)
          | answered hfound =>
              cases hpath
              rw [hmissing] at hfound
              cases hfound
          | failed => exact .failed
        · exact (h.fits t hold).mono (fun held hheld => (hlocks _).trans hheld)
            ((hfind t.path).trans (if_neg hpath))
      · cases result with
        | ok value => exact .answered ((hfind path).trans (if_pos rfl))
        | error error => exact .failed
  | forgotten => cases hkept

theorem IsOrderly.step (h : s.IsOrderly) (hmoves : s.Moves event after)
    (hkept : event.isForget = false) : after.IsOrderly where
  fits := h.fits_step hmoves hkept
  loads_le := h.loads_le_step hmoves
  counted := h.counted_step hmoves

end Keeping

theorem isOrderly_empty : (empty : SharedCache ε α).IsOrderly where
  fits := fun _ htask => nomatch htask
  loads_le := fun _ => Nat.zero_le 1
  counted := rfl

/-! # What is told by the passages -/

section Telling

variable {s after : SharedCache ε α} {event : CacheEvent ε α}

theorem isLoading_eq_false {task : Nat} (h : s.tasks.length ≤ task) :
    s.isLoading task = false := by
  rw [isLoading, List.getElem?_eq_none h]
  rfl

theorem loadsStarted_add {t : SharedCache ε α} {path : Text} {phase : TaskPhase ε α}
    (ht : t.tasks = s.tasks) :
    Passage.loadsStarted ⟨s, event, t.add path phase⟩ = if phase.isLoading then 1 else 0 := by
  have hsame : ∀ task, t.isLoading task = s.isLoading task := by
    intro task
    rw [isLoading, isLoading, ht]
  have hnone : ∀ task ∈ List.range t.tasks.length,
      ¬ ((t.add path phase).isLoading task && !s.isLoading task) = true := by
    intro task htask
    rw [isLoading_add, if_neg (Nat.ne_of_lt (List.mem_range.mp htask)), hsame]
    simp
  show (List.range (t.tasks ++ [_]).length).countP _ = _
  rw [List.length_append, List.length_singleton, List.range_succ, List.countP_append,
    List.countP_eq_zero.mpr hnone, List.countP_singleton, isLoading_add, if_pos rfl,
    isLoading_eq_false (Nat.le_of_eq (congrArg List.length ht.symm))]
  simp

theorem loadsStarted_setPhase {t : SharedCache ε α} {task : Nat} {path : Text}
    {phase old : TaskPhase ε α} (ht : t.tasks = s.tasks)
    (h : s.tasks[task]? = some ⟨path, old⟩) :
    Passage.loadsStarted ⟨s, event, t.setPhase task phase⟩ =
      if phase.isLoading && !old.isLoading then 1 else 0 := by
  rcases List.getElem?_eq_some_iff.mp h with ⟨hlt, _⟩
  have hold : s.isLoading task = old.isLoading := by
    rw [isLoading, h]
    rfl
  have htest : ∀ other, ((t.setPhase task phase).isLoading other && !s.isLoading other) =
      (other == task && (phase.isLoading && !old.isLoading)) := by
    intro other
    rw [isLoading_setPhase (ht ▸ h)]
    by_cases hother : other = task
    · rw [if_pos hother, hother, hold, beq_self_eq_true, Bool.true_and]
    · rw [if_neg hother, isLoading, isLoading, ht, beq_eq_false_iff_ne.mpr hother]
      simp
  show (List.range (t.setPhase task phase).tasks.length).countP _ = _
  rw [tasks_setPhase (ht ▸ h), List.length_set, ht]
  simp only [htest]
  cases phase.isLoading && !old.isLoading with
  | false => simp
  | true =>
      simp only [Bool.and_true, if_true]
      exact List.count_range.trans (if_pos hlt)

theorem misses_step (hmoves : s.Moves event after) :
    after.cache.misses = s.cache.misses + Passage.loadsStarted ⟨s, event, after⟩ := by
  cases hmoves with
  | found _ =>
      rw [loadsStarted_add (tasks_hit s)]
      rfl
  | @queued path _ =>
      rw [loadsStarted_add (tasks_lockFor s path)]
      exact congrArg Cache.misses (cache_lockFor s path)
  | @begun path _ _ =>
      rw [loadsStarted_add (t := (s.lockFor path).2.miss) (tasks_lockFor s path)]
      exact congrArg (·.misses + 1) (cache_lockFor s path)
  | served htask _ =>
      rw [loadsStarted_setPhase (tasks_hit s) htask]
      rfl
  | resumed htask _ _ =>
      rw [loadsStarted_setPhase (tasks_miss s) htask]
      rfl
  | @ended task _ path result htask =>
      rw [loadsStarted_setPhase (tasks_keep path result) htask]
      cases result <;> rfl
  | @forgotten path =>
      have hzero : Passage.loadsStarted ⟨s, .forget path, s.forget path⟩ = 0 := by
        refine List.countP_eq_zero.mpr fun task _ => ?_
        cases path <;> simp [isLoading, forget]
      rw [hzero]
      cases path <;> rfl

theorem length_tasks_step (hmoves : s.Moves event after) :
    after.tasks.length = s.tasks.length + if event.isAsk then 1 else 0 := by
  cases hmoves with
  | found _ => exact List.length_append
  | @queued path _ =>
      rw [tasks_add, tasks_lockFor]
      exact List.length_append
  | @begun path _ _ =>
      show ((s.lockFor path).2.tasks ++ [_]).length = _
      rw [tasks_lockFor]
      exact List.length_append
  | served htask _ => rw [tasks_setPhase (s := s.hit) htask, List.length_set]; rfl
  | resumed htask _ _ => rw [tasks_setPhase (s := s.miss) htask, List.length_set]; rfl
  | @ended task _ path result htask =>
      rw [tasks_setPhase ((tasks_keep path result).symm ▸ htask), List.length_set, tasks_keep]
      rfl
  | @forgotten path => cases path <;> rfl

theorem IsOrderly.found_step (h : s.IsOrderly) (hmoves : s.Moves event after)
    (hkept : event.isForget = false) (path : Text) :
    (after.cache.find? path).toList =
      (s.cache.find? path).toList ++ (Passage.brought? path ⟨s, event, after⟩).toList := by
  cases hmoves with
  | found _ => exact (List.append_nil _).symm
  | @queued other _ =>
      rw [show ((s.lockFor other).2.add other _).cache = s.cache from cache_lockFor s other]
      exact (List.append_nil _).symm
  | @begun other _ _ =>
      have hcache : ((s.lockFor other).2.miss.add other (.loading (s.lockFor other).1)).cache.find?
          path = s.cache.find? path :=
        congrArg (fun cache => cache.find? path) (cache_lockFor s other)
      rw [hcache]
      exact (List.append_nil _).symm
  | served _ _ => exact (List.append_nil _).symm
  | resumed _ _ _ => exact (List.append_nil _).symm
  | @ended task lock other result htask =>
      have hmissing := h.missing htask
      show ((s.keep other result).cache.find? path).toList = _
      rw [find?_keep hmissing]
      cases result with
      | ok value =>
          by_cases hpath : path = other
          · subst hpath
            rw [if_pos rfl, hmissing]
            simp [Passage.brought?, htask, Except.toOption]
          · simp [Passage.brought?, htask, if_neg hpath, Ne.symm hpath]
      | error error =>
          by_cases hpath : path = other
          · subst hpath
            rw [if_pos rfl, hmissing]
            rfl
          · rw [if_neg hpath]
            exact (List.append_nil _).symm
  | forgotten => cases hkept

end Telling

/-! # Rows of events -/

structure Adds (s : SharedCache ε α) (events : List (CacheEvent ε α)) (after : SharedCache ε α) :
    Prop where
  isOrderly : after.IsOrderly
  calls : after.tasks.length = s.tasks.length + events.countP CacheEvent.isAsk
  misses : after.cache.misses = s.cache.misses + s.loadsStarted events
  found : ∀ path, (after.cache.find? path).toList =
    (s.cache.find? path).toList ++ s.brought path events

theorem adds_of_run? {events : List (CacheEvent ε α)} {s after : SharedCache ε α}
    (h : s.IsOrderly) (hrun : s.run? events = some after)
    (hkept : ∀ event ∈ events, event.isForget = false) : s.Adds events after := by
  induction events generalizing s with
  | nil =>
      cases hrun
      exact ⟨h, rfl, rfl, fun _ => (List.append_nil _).symm⟩
  | cons event rest ih =>
      rcases Option.bind_eq_some_iff.mp hrun with ⟨next, hstep, hrest⟩
      have hmoves := moves_of_step? hstep
      have hevent := hkept event List.mem_cons_self
      have hadds := ih (h.step hmoves hevent) hrest
        fun other hother => hkept other (List.mem_cons_of_mem _ hother)
      have hpassages : s.passages (event :: rest) = ⟨s, event, next⟩ :: next.passages rest := by
        rw [passages, hstep]
      refine ⟨hadds.isOrderly, ?_, ?_, fun path => ?_⟩
      · rw [hadds.calls, length_tasks_step hmoves, List.countP_cons]
        omega
      · rw [hadds.misses, misses_step hmoves, loadsStarted, loadsStarted, hpassages, List.map_cons,
          List.sum_cons]
        omega
      · rw [hadds.found path, h.found_step hmoves hevent path, brought, brought, hpassages,
          List.filterMap_cons, List.append_assoc]
        cases Passage.brought? path ⟨s, event, next⟩ <;> rfl

/--
Loads happen once. Whatever a row of events from an empty shared cache is, if it forgets nothing:
at most one load of a path runs; at most one load of a path has brought anything, which is what
every task that got an answer for the path got, and what the cache holds for it; a load that fails
leaves nothing for its path. When all tasks are done, each call is one hit or one miss, and each
load that started is one miss.
-/
theorem loads_once {events : List (CacheEvent ε α)} {s : SharedCache ε α}
    (hrun : (empty : SharedCache ε α).run? events = some s)
    (hkept : ∀ event ∈ events, event.isForget = false) :
    (∀ path, s.loads path ≤ 1) ∧
    (∀ path, ((empty : SharedCache ε α).brought path events).length ≤ 1) ∧
    (∀ task ∈ s.tasks, ∀ view, task.phase = .done (.ok view) →
      (empty : SharedCache ε α).brought task.path events = [view]) ∧
    (∀ path, s.cache.find? path = ((empty : SharedCache ε α).brought path events).head?) ∧
    (∀ task path lock error, s.tasks[task]? = some ⟨path, .loading lock⟩ →
      ∃ after, s.step? (.finish task (.error error)) = some after ∧
        after.cache.find? path = none) ∧
    ((∀ task ∈ s.tasks, task.phase.isDone = true) →
      s.cache.hits + s.cache.misses = events.countP CacheEvent.isAsk ∧
        s.cache.misses = (empty : SharedCache ε α).loadsStarted events) := by
  have hadds := adds_of_run? isOrderly_empty hrun hkept
  have hbrought : ∀ path, (empty : SharedCache ε α).brought path events =
      (s.cache.find? path).toList := fun path => (hadds.found path).symm
  have horder := hadds.isOrderly
  refine ⟨horder.loads_le, fun path => ?_, fun task htask view hview => ?_, fun path => ?_,
    fun task path lock error htask => ?_, fun hdone => ?_⟩
  · rw [hbrought]
    cases s.cache.find? path <;> simp
  · rcases task with ⟨path, phase⟩
    cases hview
    cases horder.fits _ htask with
    | answered hfound => rw [hbrought, hfound]; rfl
  · rw [hbrought]
    cases s.cache.find? path <;> rfl
  · refine ⟨s.setPhase task (.done (.error error)), ?_, horder.missing htask⟩
    rw [step?, finish?, htask]
    rfl
  · have hwaiting : s.waiting = 0 := by
      refine List.countP_eq_zero.mpr fun task htask hwaits => ?_
      rw [TaskPhase.isWaiting_of_isDone (hdone task htask)] at hwaits
      cases hwaits
    have hcounted := horder.counted
    have hcalls := hadds.calls
    have hmisses := hadds.misses
    refine ⟨?_, by simpa [empty, Cache.empty] using hmisses⟩
    simp only [empty, List.length_nil] at hcalls
    omega

/--
Two tasks want one path. The load of the first fails, the second takes over, and a third finds what
that one has brought; another path is loaded meanwhile.
-/
theorem loads_once_retried :
    let events : List (CacheEvent Unit Nat) :=
      [.ask "a", .ask "a", .ask "b", .finish 0 (.error ()), .wake 1, .finish 2 (.ok 5),
        .finish 1 (.ok 7), .ask "a"]
    let start : SharedCache Unit Nat := empty
    let final : SharedCache Unit Nat :=
      { cache := ⟨[("b", 5), ("a", 7)], 1, 3⟩
        locks := [("a", 0), ("b", 1)]
        lockCount := 2
        tasks := [⟨"a", .done (.error ())⟩, ⟨"a", .done (.ok 7)⟩, ⟨"b", .done (.ok 5)⟩,
          ⟨"a", .done (.ok 7)⟩] }
    start.run? events = some final ∧ (∀ event ∈ events, event.isForget = false) ∧
      (∀ task ∈ final.tasks, task.phase.isDone = true) ∧ start.brought "a" events = [7] ∧
      1 + 3 = events.countP CacheEvent.isAsk ∧ 3 = start.loadsStarted events := by
  intro events start final
  have hrun : start.run? events = some final := rfl
  have hkept : ∀ event ∈ events, event.isForget = false := by decide
  have hdone : ∀ task ∈ final.tasks, task.phase.isDone = true := by decide
  rcases loads_once hrun hkept with ⟨_, _, hanswers, _, _, hcounts⟩
  exact ⟨hrun, hkept, hdone, hanswers _ (List.mem_cons_of_mem _ List.mem_cons_self) 7 rfl,
    hcounts hdone⟩

end SharedCache
end Stencil
