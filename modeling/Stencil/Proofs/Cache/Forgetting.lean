import Mathlib
import Stencil.Proofs.Cache.Sharing

/-!
# Shared caches that forget

A path can be forgotten at any time, also while tasks are under way for it: they wait for its lock
or load it. A load that runs at that time goes on and keeps what it brings, as if nothing had
been forgotten. And since the lock is forgotten as well, a task that comes later does not wait for
those that are under way.

So a task gets what a load has brought that ended after its path was forgotten, and if nobody
loaded the path at that time, one that also began after it. At most one load of a path runs at a
time, and one more for each time the path was forgotten while tasks were under way for it.
-/

namespace Stencil

variable {ε α : Type}

/-! # Forgetting -/

def CacheEvent.forgets (path : Text) : CacheEvent ε α → Bool
  | forget none => true
  | forget (some other) => other == path
  | _ => false

namespace CacheTask

def isUnderWay (path : Text) (task : CacheTask ε α) : Bool :=
  task.path == path && !task.phase.isDone

def holds (lock : Nat) (task : CacheTask ε α) : Bool :=
  task.phase.holds lock

def uses (lock : Nat) (task : CacheTask ε α) : Bool :=
  task.phase.holds lock || task.phase.awaits lock

section Phases

variable (path : Text) (held lock : Nat) (result : Except ε α)

@[simp] theorem holds_waiting : (⟨path, .waiting held⟩ : CacheTask ε α).holds lock = false := rfl

@[simp] theorem holds_loading :
    (⟨path, .loading held⟩ : CacheTask ε α).holds lock = (held == lock) := rfl

@[simp] theorem holds_done : (⟨path, .done result⟩ : CacheTask ε α).holds lock = false := rfl

@[simp] theorem uses_waiting :
    (⟨path, .waiting held⟩ : CacheTask ε α).uses lock = (held == lock) := rfl

@[simp] theorem uses_loading :
    (⟨path, .loading held⟩ : CacheTask ε α).uses lock = (held == lock) :=
  Bool.or_false _

@[simp] theorem uses_done : (⟨path, .done result⟩ : CacheTask ε α).uses lock = false := rfl

end Phases

theorem isUnderWay_of_uses {path : Text} {lock : Nat} {task : CacheTask ε α}
    (hpath : task.path = path) (h : task.uses lock = true) : task.isUnderWay path = true := by
  rcases task with ⟨other, phase⟩
  cases phase with
  | done result => simp at h
  | _ => simpa [isUnderWay, TaskPhase.isDone] using hpath

end CacheTask

namespace SharedCache

def Passage.disturbs (path : Text) (passage : Passage ε α) : Bool :=
  passage.event.forgets path && passage.before.tasks.any (CacheTask.isUnderWay path)

def disturbances (s : SharedCache ε α) (path : Text) (events : List (CacheEvent ε α)) : Nat :=
  (s.passages events).countP (Passage.disturbs path)

def Passage.endsLoadOf (s : SharedCache ε α) (passage : Passage ε α) : Bool :=
  match passage.event with
  | .finish task _ => s.isLoading task
  | _ => false

/-- What those loads of a path bring during a row of events that have begun during it. -/
def broughtSince (s : SharedCache ε α) (path : Text) (events : List (CacheEvent ε α)) : List α :=
  ((s.passages events).filter fun passage => !passage.endsLoadOf s).filterMap
    (Passage.brought? path)

/-! # Passages, one by one -/

section Passages

variable {s next : SharedCache ε α} {event : CacheEvent ε α}

theorem passages_cons (h : s.step? event = some next) (rest : List (CacheEvent ε α)) :
    s.passages (event :: rest) = ⟨s, event, next⟩ :: next.passages rest := by
  rw [passages, h]

theorem brought_cons (h : s.step? event = some next) (path : Text)
    (rest : List (CacheEvent ε α)) :
    s.brought path (event :: rest) =
      (Passage.brought? path ⟨s, event, next⟩).toList ++ next.brought path rest := by
  rw [brought, passages_cons h, List.filterMap_cons]
  cases Passage.brought? path ⟨s, event, next⟩ <;> rfl

theorem disturbances_cons (h : s.step? event = some next) (path : Text)
    (rest : List (CacheEvent ε α)) :
    s.disturbances path (event :: rest) =
      next.disturbances path rest +
        if Passage.disturbs path ⟨s, event, next⟩ = true then 1 else 0 := by
  rw [disturbances, passages_cons h, List.countP_cons]
  rfl

end Passages

/-! # What is forgotten -/

section Forgetting

variable {s : SharedCache ε α} {gone : Option Text} {path : Text}

theorem find?_filter_ne {κ : Type} (entries : List (Text × κ)) (other : Text) :
    (entries.filter fun entry => entry.1 != other).find? (fun entry => entry.1 == path) =
      if path = other then none else entries.find? fun entry => entry.1 == path := by
  rw [List.find?_filter]
  by_cases h : path = other
  · rw [if_pos h, List.find?_eq_none]
    intro entry _
    simp [h]
  · rw [if_neg h]
    congr 1
    funext entry
    by_cases hentry : entry.1 = path
    · simp [hentry, h]
    · simp [hentry]

theorem find?_forget :
    (s.forget gone).cache.find? path =
      if (CacheEvent.forget gone : CacheEvent ε α).forgets path then none
      else s.cache.find? path := by
  cases gone with
  | none => rfl
  | some other =>
      show ((s.cache.entries.filter _).find? _).map _ = _
      rw [find?_filter_ne]
      by_cases h : path = other
      · simp [CacheEvent.forgets, h]
      · simp [CacheEvent.forgets, h, Ne.symm h, Cache.find?]

theorem lock?_forget :
    (s.forget gone).lock? path =
      if (CacheEvent.forget gone : CacheEvent ε α).forgets path then none else s.lock? path := by
  cases gone with
  | none => rfl
  | some other =>
      show ((s.locks.filter _).find? _).map _ = _
      rw [find?_filter_ne]
      by_cases h : path = other
      · simp [CacheEvent.forgets, h]
      · simp [CacheEvent.forgets, h, Ne.symm h, lock?]

@[simp] theorem tasks_forget : (s.forget gone).tasks = s.tasks := by
  cases gone <;> rfl

end Forgetting

/-! # Tasks keep their paths -/

section Paths

variable {s after : SharedCache ε α} {event : CacheEvent ε α}

theorem paths_step (hmoves : s.Moves event after) :
    s.tasks.map (·.path) <+: after.tasks.map (·.path) := by
  have hadd (t : SharedCache ε α) (path : Text) (phase : TaskPhase ε α) :
      t.tasks.map (·.path) <+: (t.add path phase).tasks.map (·.path) := by
    rw [tasks_add, List.map_append]
    exact List.prefix_append _ _
  have hset (t : SharedCache ε α) (task : Nat) (phase : TaskPhase ε α) :
      t.tasks.map (·.path) <+: (t.setPhase task phase).tasks.map (·.path) := by
    have hsame : (t.setPhase task phase).tasks.map (·.path) = t.tasks.map (·.path) := by
      refine List.ext_getElem? fun other => ?_
      rw [List.getElem?_map, List.getElem?_map, setPhase, List.getElem?_modify]
      cases t.tasks[other]? with
      | none => rfl
      | some found =>
          by_cases hother : task = other
          · simp [hother]
          · simp [hother]
    rw [hsame]
  cases hmoves with
  | found _ => exact hadd s.hit _ _
  | @queued path _ =>
      have h := hadd (s.lockFor path).2 path (.waiting (s.lockFor path).1)
      rwa [tasks_lockFor] at h
  | @begun path _ _ =>
      have h := hadd (s.lockFor path).2.miss path (.loading (s.lockFor path).1)
      rwa [tasks_miss, tasks_lockFor] at h
  | served _ _ => exact hset s.hit _ _
  | resumed _ _ _ => exact hset s.miss _ _
  | @ended task _ path result _ =>
      have h := hset (s.keep path result) task (.done result)
      rwa [tasks_keep] at h
  | forgotten => rw [tasks_forget]

theorem paths_of_mem_passages {events : List (CacheEvent ε α)} {s : SharedCache ε α}
    {passage : Passage ε α} (h : passage ∈ s.passages events) :
    s.tasks.map (·.path) <+: passage.before.tasks.map (·.path) := by
  induction events generalizing s with
  | nil => cases h
  | cons event rest ih =>
      cases hstep : s.step? event with
      | none =>
          rw [passages, hstep] at h
          cases h
      | some next =>
          rw [passages_cons hstep] at h
          rcases List.mem_cons.mp h with rfl | h
          · exact List.prefix_refl _
          · exact (paths_step (moves_of_step? hstep)).trans (ih h)

end Paths

/-! # Answers after a path was forgotten -/

section Answers

variable {s after : SharedCache ε α} {event : CacheEvent ε α} {path : Text} {value : α}

theorem brought?_ended {task lock : Nat} (htask : s.tasks[task]? = some ⟨path, .loading lock⟩)
    (value : α) (after : SharedCache ε α) :
    Passage.brought? path ⟨s, .finish task (.ok value), after⟩ = some value := by
  simp [Passage.brought?, htask]

theorem found_step (hmoves : s.Moves event after)
    (h : after.cache.find? path = some value) :
    s.cache.find? path = some value ∨
      Passage.brought? path ⟨s, event, after⟩ = some value := by
  cases hmoves with
  | found _ => exact .inl h
  | @queued other _ =>
      have hcache :
          ((s.lockFor other).2.add other (.waiting (s.lockFor other).1)).cache = s.cache :=
        cache_lockFor s other
      exact .inl (by rwa [hcache] at h)
  | @begun other _ _ =>
      have hcache : ((s.lockFor other).2.miss.add other
          (.loading (s.lockFor other).1)).cache.find? path = s.cache.find? path :=
        congrArg (fun cache => cache.find? path) (cache_lockFor s other)
      exact .inl (by rwa [hcache] at h)
  | served _ _ => exact .inl h
  | resumed _ _ _ => exact .inl h
  | @ended task lock other result htask =>
      cases result with
      | error e => exact .inl h
      | ok brought =>
          have hfind : (s.cache.insert other brought).find? path = some value := h
          rw [Cache.find?_insert] at hfind
          split at hfind
          next hpath =>
              cases hfind
              cases hpath
              exact .inr (brought?_ended htask value _)
          next => exact .inl hfind
  | @forgotten gone =>
      rw [find?_forget] at h
      split at h
      · cases h
      · exact .inl h

theorem answered_step (hmoves : s.Moves event after) {task : Nat}
    (h : after.tasks[task]? = some ⟨path, .done (.ok value)⟩) :
    s.tasks[task]? = some ⟨path, .done (.ok value)⟩ ∨ s.cache.find? path = some value ∨
      Passage.brought? path ⟨s, event, after⟩ = some value := by
  have hadd {t : SharedCache ε α} {other : Text} {phase : TaskPhase ε α}
      (h : (t.add other phase).tasks[task]? = some ⟨path, .done (.ok value)⟩) :
      t.tasks[task]? = some ⟨path, .done (.ok value)⟩ ∨
        other = path ∧ phase = .done (.ok value) := by
    rw [tasks_add] at h
    by_cases hlt : task < t.tasks.length
    · rw [List.getElem?_append_left hlt] at h
      exact .inl h
    · rw [List.getElem?_append_right (Nat.le_of_not_lt hlt), List.getElem?_singleton] at h
      split at h
      · cases h
        exact .inr ⟨rfl, rfl⟩
      · cases h
  have hset {t : SharedCache ε α} {other : Text} {place : Nat} {old phase : TaskPhase ε α}
      (hplace : t.tasks[place]? = some ⟨other, old⟩)
      (h : (t.setPhase place phase).tasks[task]? = some ⟨path, .done (.ok value)⟩) :
      t.tasks[task]? = some ⟨path, .done (.ok value)⟩ ∨
        other = path ∧ phase = .done (.ok value) := by
    rw [tasks_setPhase hplace, List.getElem?_set] at h
    split at h
    · split at h
      · cases h
        exact .inr ⟨rfl, rfl⟩
      · cases h
    · exact .inl h
  cases hmoves with
  | found hfound =>
      rcases hadd h with h | ⟨rfl, hphase⟩
      · exact .inl h
      · cases hphase
        exact .inr (.inl hfound)
  | @queued other _ =>
      rcases hadd h with h | ⟨_, hphase⟩
      · rw [tasks_lockFor] at h
        exact .inl h
      · cases hphase
  | @begun other _ _ =>
      rcases hadd h with h | ⟨_, hphase⟩
      · rw [tasks_miss, tasks_lockFor] at h
        exact .inl h
      · cases hphase
  | served htask hfound =>
      rcases hset (t := s.hit) htask h with h | ⟨rfl, hphase⟩
      · exact .inl h
      · cases hphase
        exact .inr (.inl hfound)
  | resumed htask _ _ =>
      rcases hset (t := s.miss) htask h with h | ⟨_, hphase⟩
      · exact .inl h
      · cases hphase
  | @ended _ _ other result htask =>
      rcases hset ((tasks_keep other result).symm ▸ htask) h with h | ⟨rfl, hphase⟩
      · rw [tasks_keep] at h
        exact .inl h
      · cases hphase
        exact .inr (.inr (brought?_ended htask value _))
  | forgotten =>
      rw [tasks_forget] at h
      exact .inl h

theorem answered_of_run? {events : List (CacheEvent ε α)} {s : SharedCache ε α}
    (hrun : s.run? events = some after) {task : Nat}
    (h : after.tasks[task]? = some ⟨path, .done (.ok value)⟩) :
    s.tasks[task]? = some ⟨path, .done (.ok value)⟩ ∨ s.cache.find? path = some value ∨
      value ∈ s.brought path events := by
  induction events generalizing s with
  | nil =>
      cases hrun
      exact .inl h
  | cons event rest ih =>
      rcases Option.bind_eq_some_iff.mp hrun with ⟨next, hstep, hrest⟩
      have hmoves := moves_of_step? hstep
      rw [brought_cons hstep, List.mem_append, Option.mem_toList]
      rcases ih hrest with hanswer | hfound | hbrought
      · rcases answered_step hmoves hanswer with hanswer | hfound | hbrought
        · exact .inl hanswer
        · exact .inr (.inl hfound)
        · exact .inr (.inr (.inl hbrought))
      · rcases found_step hmoves hfound with hfound | hbrought
        · exact .inr (.inl hfound)
        · exact .inr (.inr (.inl hbrought))
      · exact .inr (.inr (.inr hbrought))

theorem broughtSince_eq (h : s.loads path = 0) (events : List (CacheEvent ε α)) :
    s.broughtSince path events = s.brought path events := by
  rw [broughtSince, brought, List.filterMap_filter]
  refine List.filterMap_congr fun passage hpassage => ?_
  have hpaths := paths_of_mem_passages hpassage
  rcases passage with ⟨before, event, after⟩
  cases event with
  | finish task result =>
      cases hloading : s.isLoading task with
      | false => simp [Passage.endsLoadOf, hloading]
      | true =>
          -- The task that loads in `s` asks for another path.
          rw [isLoading, Option.any_eq_true] at hloading
          rcases hloading with ⟨⟨other, phase⟩, htask, hphase⟩
          have hother : other ≠ path := by
            rintro rfl
            cases phase with
            | loading lock => exact loads_ne_zero (List.mem_of_getElem? htask) h
            | _ => cases hphase
          have hbefore : (before.tasks[task]?).map (·.path) = some other := by
            have hmap : (s.tasks.map (·.path))[task]? = some other := by
              rw [List.getElem?_map, htask]
              rfl
            rcases hpaths with ⟨more, hmore⟩
            rcases List.getElem?_eq_some_iff.mp hmap with ⟨hlt, _⟩
            rw [← List.getElem?_map, ← hmore, List.getElem?_append_left hlt, hmap]
          have hnone : before.tasks[task]?.any (·.path == path) = false := by
            rcases Option.map_eq_some_iff.mp hbefore with ⟨found, hfound, hpath⟩
            rw [hfound, Option.any_some, hpath, beq_eq_false_iff_ne]
            exact hother
          cases result <;> simp [Passage.brought?, hnone]
  | _ => simp [Passage.endsLoadOf]

end Answers

/-! # Loads of one path -/

def UsesLocks (s : SharedCache ε α) (path : Text) (others : List Nat) : Prop :=
  ∀ task ∈ s.tasks, task.path = path → ∀ lock, task.uses lock = true →
    s.lock? path = some lock ∨ lock ∈ others

/--
What is left of the order when paths are forgotten: a lock is held by one task at most, and those
who are under way for a path use its lock or one of so many that have been forgotten.
-/
structure IsGuarded (s : SharedCache ε α) (path : Text) (count : Nat) : Prop where
  held_le : ∀ lock, s.tasks.countP (CacheTask.holds lock) ≤ 1
  locks : ∃ forgotten : List Nat, forgotten.length ≤ count ∧ s.UsesLocks path forgotten

theorem isGuarded_empty (path : Text) : (empty : SharedCache ε α).IsGuarded path 0 where
  held_le := fun _ => Nat.zero_le 1
  locks := ⟨[], Nat.le_refl 0, fun _ htask => nomatch htask⟩

theorem countP_le_of_keys {κ β : Type} (test : β → Bool) (under : κ → β → Bool) {bound : Nat}
    {keys : List κ} {rows : List β} (hkeys : ∀ key ∈ keys, rows.countP (under key) ≤ bound)
    (h : ∀ row ∈ rows, test row = true → ∃ key ∈ keys, under key row = true) :
    rows.countP test ≤ keys.length * bound := by
  induction keys generalizing test with
  | nil =>
      rw [List.countP_eq_zero.mpr fun row hrow htest => ?_]
      · exact Nat.zero_le _
      · rcases h row hrow htest with ⟨key, hkey, _⟩
        cases hkey
  | cons key rest ih =>
      have hfirst := hkeys key List.mem_cons_self
      have hrest := ih (fun row => test row && !under key row)
        (fun other hother => hkeys other (List.mem_cons_of_mem _ hother)) fun row hrow htest => by
          rcases Bool.and_eq_true_iff.mp htest with ⟨htest, hnot⟩
          rcases h row hrow htest with ⟨other, hother, hunder⟩
          rcases List.mem_cons.mp hother with rfl | hother
          · simp [hunder] at hnot
          · exact ⟨other, hother, hunder⟩
      have hsplit : rows.countP test ≤
          rows.countP (under key) + rows.countP fun row => test row && !under key row := by
        clear h hkeys hfirst hrest ih
        induction rows with
        | nil => exact Nat.le_refl 0
        | cons row others ihrows =>
            simp only [List.countP_cons]
            cases test row <;> cases under key row <;> simp <;> omega
      rw [List.length_cons, Nat.succ_mul]
      omega

theorem IsGuarded.loads_le {s : SharedCache ε α} {path : Text} {count : Nat}
    (h : s.IsGuarded path count) : s.loads path ≤ 1 + count := by
  rcases h.locks with ⟨forgotten, hlength, hlocks⟩
  have hloading : ∀ task ∈ s.tasks, loadsPath path task = true →
      ∃ lock ∈ (s.lock? path).toList ++ forgotten, task.holds lock = true := by
    intro task htask hloads
    rcases task with ⟨other, phase⟩
    rcases Bool.and_eq_true_iff.mp hloads with ⟨hpath, hloading⟩
    cases phase with
    | loading lock =>
        refine ⟨lock, ?_, by simp⟩
        rw [List.mem_append, Option.mem_toList]
        exact hlocks _ htask (beq_iff_eq.mp hpath) lock (by simp)
    | _ => cases hloading
  have hcount := countP_le_of_keys (loadsPath path) CacheTask.holds
    (fun lock _ => h.held_le lock) hloading
  have hlock : (s.lock? path).toList.length ≤ 1 := by
    cases s.lock? path <;> simp
  rw [← loads_eq, List.length_append, Nat.mul_one] at hcount
  omega

section Guarding

variable {s t after : SharedCache ε α} {event : CacheEvent ε α} {path other : Text}
  {others : List Nat} {phase old : TaskPhase ε α} {task lock count : Nat}

theorem countP_holds_of_isHeld (h : s.isHeld lock = false) :
    s.tasks.countP (CacheTask.holds lock) = 0 := by
  rw [List.countP_eq_zero]
  exact List.any_eq_false.mp h

theorem held_le_step (h : ∀ lock, s.tasks.countP (CacheTask.holds lock) ≤ 1)
    (hmoves : s.Moves event after) (lock : Nat) :
    after.tasks.countP (CacheTask.holds lock) ≤ 1 := by
  have hle := h lock
  cases hmoves with
  | found _ =>
      rw [countP_add]
      exact hle
  | @queued path _ =>
      rw [countP_add, tasks_lockFor]
      exact hle
  | @begun path _ hbusy =>
      rw [countP_add, tasks_miss, tasks_lockFor, CacheTask.holds_loading]
      split
      next hlock =>
          cases beq_iff_eq.mp hlock
          rw [countP_holds_of_isHeld (isHeld_of_isBusy hbusy)]
      next => exact hle
  | @served task held path value htask _ =>
      have hcount := countP_setPhase (s := s.hit) htask (.done (.ok value)) (CacheTask.holds lock)
      simp only [CacheTask.holds_waiting, CacheTask.holds_done, Bool.false_eq_true, if_false]
        at hcount
      rw [Nat.add_zero, tasks_hit] at hcount
      exact hcount ▸ hle
  | @resumed task held path htask hheld _ =>
      have hcount := countP_setPhase (s := s.miss) htask (.loading held) (CacheTask.holds lock)
      simp only [CacheTask.holds_waiting, CacheTask.holds_loading, Bool.false_eq_true, if_false]
        at hcount
      rw [Nat.add_zero, tasks_miss] at hcount
      rw [hcount]
      by_cases hlock : held = lock
      · cases hlock
        rw [countP_holds_of_isHeld hheld]
        simp
      · simpa [hlock] using hle
  | @ended task held path result htask =>
      have hcount := countP_setPhase (s := s.keep path result)
        ((tasks_keep path result).symm ▸ htask) (.done result) (CacheTask.holds lock)
      rw [tasks_keep, CacheTask.holds_done, if_neg Bool.false_ne_true] at hcount
      omega
  | forgotten =>
      rw [tasks_forget]
      exact hle

theorem UsesLocks.add (h : t.UsesLocks path others)
    (hphase : ∀ lock, (⟨other, phase⟩ : CacheTask ε α).uses lock = true →
      t.lock? other = some lock) :
    (t.add other phase).UsesLocks path others := by
  intro row hrow hpath lock huses
  rcases mem_tasks_add.mp hrow with hrow | rfl
  · exact h row hrow hpath lock huses
  · cases hpath
    exact .inl (hphase lock huses)

theorem UsesLocks.lockFor (h : s.UsesLocks path others) (other : Text) :
    (s.lockFor other).2.UsesLocks path others := by
  intro row hrow hpath lock huses
  rw [tasks_lockFor] at hrow
  rcases h row hrow hpath lock huses with hlock | hlock
  · exact .inl (lock?_lockFor hlock)
  · exact .inr hlock

theorem UsesLocks.setPhase (h : t.UsesLocks path others)
    (htask : t.tasks[task]? = some ⟨other, old⟩)
    (hphase : ∀ lock, (⟨other, phase⟩ : CacheTask ε α).uses lock = true →
      (⟨other, old⟩ : CacheTask ε α).uses lock = true) :
    (t.setPhase task phase).UsesLocks path others := by
  intro row hrow hpath lock huses
  rcases mem_tasks_setPhase htask hrow with hrow | rfl
  · exact h row hrow hpath lock huses
  · exact h _ (List.mem_of_getElem? htask) hpath lock (hphase lock huses)

theorem UsesLocks.keep (h : s.UsesLocks path others) (other : Text) (result : Except ε α) :
    (s.keep other result).UsesLocks path others := by
  cases result <;> exact h

theorem UsesLocks.step (h : s.UsesLocks path others) (hmoves : s.Moves event after)
    (hkept : event.forgets path = false) : after.UsesLocks path others := by
  have hown {other : Text} {lock : Nat} (huses : ((s.lockFor other).1 == lock) = true) :
      (s.lockFor other).2.lock? other = some lock := by
    rw [← beq_iff_eq.mp huses]
    exact lock?_lockFor_self other
  cases hmoves with
  | found _ => exact UsesLocks.add (t := s.hit) h fun _ huses => nomatch huses
  | queued _ => exact (h.lockFor _).add fun _ huses => hown huses
  | @begun path _ _ =>
      refine UsesLocks.add (t := (s.lockFor path).2.miss) (h.lockFor path) fun lock huses => ?_
      rw [CacheTask.uses_loading] at huses
      exact hown huses
  | served htask _ => exact UsesLocks.setPhase (t := s.hit) h htask fun _ huses => nomatch huses
  | resumed htask _ _ =>
      refine UsesLocks.setPhase (t := s.miss) h htask fun lock huses => ?_
      rwa [CacheTask.uses_loading] at huses
  | @ended _ _ path result htask =>
      exact (h.keep path result).setPhase ((tasks_keep path result).symm ▸ htask)
        fun _ huses => nomatch huses
  | forgotten =>
      intro row hrow hpath lock huses
      rw [tasks_forget] at hrow
      rw [lock?_forget, hkept]
      exact h row hrow hpath lock huses

theorem IsGuarded.step (h : s.IsGuarded path count) (hmoves : s.Moves event after) :
    after.IsGuarded path
      (count + if Passage.disturbs path ⟨s, event, after⟩ = true then 1 else 0) where
  held_le := held_le_step h.held_le hmoves
  locks := by
    rcases h.locks with ⟨forgotten, hlength, hlocks⟩
    cases hforgets : event.forgets path with
    | false => exact ⟨forgotten, hlength.trans (Nat.le_add_right _ _), hlocks.step hmoves hforgets⟩
    | true =>
        cases hmoves with
        | @forgotten gone =>
            cases hdisturbs : Passage.disturbs path ⟨s, .forget gone, s.forget gone⟩ with
            | true =>
                refine ⟨(s.lock? path).toList ++ forgotten, ?_, fun row hrow hpath lock huses => ?_⟩
                · rw [if_pos rfl, List.length_append]
                  cases s.lock? path <;> simp <;> omega
                · rw [tasks_forget] at hrow
                  rw [List.mem_append, Option.mem_toList]
                  exact .inr (hlocks row hrow hpath lock huses)
            | false =>
                refine ⟨[], Nat.zero_le _, fun row hrow hpath lock huses => ?_⟩
                rw [tasks_forget] at hrow
                rw [Passage.disturbs, hforgets, Bool.true_and, List.any_eq_false] at hdisturbs
                exact absurd (CacheTask.isUnderWay_of_uses hpath huses) (hdisturbs row hrow)
        | _ => cases hforgets

end Guarding

theorem isGuarded_of_run? {events : List (CacheEvent ε α)} {s after : SharedCache ε α}
    {path : Text} {count : Nat} (h : s.IsGuarded path count) (hrun : s.run? events = some after) :
    after.IsGuarded path (count + s.disturbances path events) := by
  induction events generalizing s count with
  | nil =>
      cases hrun
      exact h
  | cons event rest ih =>
      rcases Option.bind_eq_some_iff.mp hrun with ⟨next, hstep, hrest⟩
      have hnext := ih (h.step (moves_of_step? hstep)) hrest
      rw [disturbances_cons hstep, Nat.add_comm (next.disturbances path rest), ← Nat.add_assoc]
      exact hnext

/-! # Forgotten paths -/

/--
What forgetting a path is good for, whatever a row of events from an empty shared cache is. A task
that asks for the path afterwards gets what a load has brought that ended afterwards, and if nobody
loaded the path when it was forgotten, what one has brought that also began afterwards. At most one
load of a path runs, and one more for each time it was forgotten while tasks were under way for it.
-/
theorem forgotten_until_brought {events : List (CacheEvent ε α)} {s : SharedCache ε α}
    (hrun : (empty : SharedCache ε α).run? events = some s) :
    (∀ earlier gone later, events = earlier ++ .forget gone :: later →
      ∃ start, (empty : SharedCache ε α).run? (earlier ++ [.forget gone]) = some start ∧
        ∀ path, (CacheEvent.forget gone : CacheEvent ε α).forgets path = true →
          ∀ task value, start.tasks.length ≤ task →
            s.tasks[task]? = some ⟨path, .done (.ok value)⟩ →
              value ∈ start.brought path later ∧
                (start.loads path = 0 → value ∈ start.broughtSince path later)) ∧
      ∀ path, s.loads path ≤ 1 + (empty : SharedCache ε α).disturbances path events := by
  refine ⟨fun earlier gone later hevents => ?_, fun path => ?_⟩
  · rw [hevents, run?, List.foldlM_append] at hrun
    rcases Option.bind_eq_some_iff.mp hrun with ⟨before, hbefore, hlater⟩
    have hrest : (before.forget gone).run? later = some s := hlater
    refine ⟨before.forget gone, ?_, fun path hgone task value hnew hanswer => ?_⟩
    · rw [run?, List.foldlM_append, hbefore]
      rfl
    · have hbrought : value ∈ (before.forget gone).brought path later := by
        rcases answered_of_run? hrest hanswer with hold | hfound | hbrought
        · rw [List.getElem?_eq_none hnew] at hold
          cases hold
        · rw [find?_forget, hgone] at hfound
          cases hfound
        · exact hbrought
      refine ⟨hbrought, fun hloads => ?_⟩
      rw [broughtSince_eq hloads]
      exact hbrought
  · have hguarded := isGuarded_of_run? (isGuarded_empty path) hrun
    rw [Nat.zero_add] at hguarded
    exact hguarded.loads_le

/--
One task waits while the first loads, and everything is forgotten before it can take the lock. It
loads under the old lock, and beside it a third task loads under a new one, whose view a fourth
task finds.
-/
theorem forgotten_until_brought_waiting :
    let earlier : List (CacheEvent Unit Nat) := [.ask "a", .ask "a", .finish 0 (.ok 1)]
    let later : List (CacheEvent Unit Nat) := [.ask "a", .wake 1, .finish 2 (.ok 5), .ask "a"]
    let events := earlier ++ .forget none :: later
    let start : SharedCache Unit Nat := empty
    let final : SharedCache Unit Nat :=
      { cache := ⟨[("a", 5)], 1, 3⟩
        locks := [("a", 1)]
        lockCount := 2
        tasks := [⟨"a", .done (.ok 1)⟩, ⟨"a", .loading 0⟩, ⟨"a", .done (.ok 5)⟩,
          ⟨"a", .done (.ok 5)⟩] }
    start.run? events = some final ∧ final.loads "a" ≤ 1 + start.disturbances "a" events ∧
      ∃ forgetful, start.run? (earlier ++ [.forget none]) = some forgetful ∧
        5 ∈ forgetful.broughtSince "a" later := by
  intro earlier later events start final
  have hrun : start.run? events = some final := rfl
  rcases forgotten_until_brought hrun with ⟨hanswers, hloads⟩
  rcases hanswers earlier none later rfl with ⟨forgetful, hforgetful, hbrought⟩
  cases (rfl : start.run? (earlier ++ [.forget none]) = some _).symm.trans hforgetful
  exact ⟨hrun, hloads "a", _, hforgetful,
    (hbrought "a" rfl 3 5 (by decide) rfl).2 rfl⟩

/--
A task loads while its path is forgotten. What it brings is what a later task gets, though the load
began before. And if the later task does not find it yet, it loads the path as well.
-/
theorem forgotten_comes_back :
    let start : SharedCache Unit Nat := empty
    let later : List (CacheEvent Unit Nat) := [.finish 0 (.ok 1), .ask "a"]
    (∃ forgetful s, start.run? [.ask "a", .forget (some "a")] = some forgetful ∧
      forgetful.isLoading 0 = true ∧ forgetful.tasks.length = 1 ∧
      forgetful.run? later = some s ∧ s.tasks[1]? = some ⟨"a", .done (.ok 1)⟩ ∧
      forgetful.broughtSince "a" later = []) ∧
    ∃ s, start.run? [.ask "a", .forget (some "a"), .ask "a"] = some s ∧ s.loads "a" = 2 :=
  ⟨⟨_, _, rfl, rfl, rfl, rfl, rfl, rfl⟩, _, rfl, rfl⟩

end SharedCache
end Stencil
