import Stencil.Cache.Basic

/-!
# Shared caches

Several tasks may use a cache at once. A task that does not find its path takes the
lock of the path before it loads, so that others who want the same path wait for it.
A task rests while it waits for a lock and while its load runs; in between nothing
disturbs it. What happens is a row of events. They leave open which of the tasks that
wait for a lock is the next to take it.

To forget a path is to forget its lock as well: a task that comes later makes a new
one. A task that nothing disturbs does what `Cache.get` does.
-/

namespace Stencil

/-- How far a task has come. Locks are known by their numbers. -/
inductive TaskPhase (ε α : Type) where
  | waiting (lock : Nat)
  | loading (lock : Nat)
  | done (result : Except ε α)

namespace TaskPhase

def holds (lock : Nat) : TaskPhase ε α → Bool
  | loading n => n == lock
  | _ => false

def awaits (lock : Nat) : TaskPhase ε α → Bool
  | waiting n => n == lock
  | _ => false

def isDone : TaskPhase ε α → Bool
  | done _ => true
  | _ => false

end TaskPhase

structure CacheTask (ε α : Type) where
  path : Text
  phase : TaskPhase ε α

structure SharedCache (ε α : Type) where
  cache : Cache α
  /-- The lock of each path that has one. -/
  locks : List (Text × Nat)
  /-- How many locks have been made so far. -/
  lockCount : Nat
  /-- The tasks in the order in which they came; a task is known by its place. -/
  tasks : List (CacheTask ε α)

inductive CacheEvent (ε α : Type) where
  /-- A new task asks for a path. -/
  | ask (path : Text)
  /-- A waiting task takes its lock. -/
  | wake (task : Nat)
  /-- The load of a task ends. -/
  | finish (task : Nat) (result : Except ε α)
  /-- One path is forgotten, or every path. -/
  | forget (path : Option Text)

namespace SharedCache

def empty : SharedCache ε α := ⟨.empty, [], 0, []⟩

/-! # Locks -/

def lock? (s : SharedCache ε α) (path : Text) : Option Nat :=
  (s.locks.find? fun entry => entry.1 == path).map (·.2)

def lockFor (s : SharedCache ε α) (path : Text) : Nat × SharedCache ε α :=
  match s.lock? path with
  | some lock => (lock, s)
  | none =>
      (s.lockCount, { s with
        locks := s.locks ++ [(path, s.lockCount)]
        lockCount := s.lockCount + 1 })

def isHeld (s : SharedCache ε α) (lock : Nat) : Bool :=
  s.tasks.any fun task => task.phase.holds lock

/-- Whether a task that comes to a lock has to wait: it does not go before others. -/
def isBusy (s : SharedCache ε α) (lock : Nat) : Bool :=
  s.tasks.any fun task => task.phase.holds lock || task.phase.awaits lock

/-! # Events -/

def setPhase (s : SharedCache ε α) (task : Nat) (phase : TaskPhase ε α) : SharedCache ε α :=
  { s with tasks := s.tasks.modify task fun t => { t with phase := phase } }

def add (s : SharedCache ε α) (path : Text) (phase : TaskPhase ε α) : SharedCache ε α :=
  { s with tasks := s.tasks ++ [⟨path, phase⟩] }

def hit (s : SharedCache ε α) : SharedCache ε α :=
  { s with cache := s.cache.hit }

def miss (s : SharedCache ε α) : SharedCache ε α :=
  { s with cache := s.cache.miss }

def ask (s : SharedCache ε α) (path : Text) : SharedCache ε α :=
  match s.cache.find? path with
  | some value => s.hit.add path (.done (.ok value))
  | none =>
      let (lock, s) := s.lockFor path
      if s.isBusy lock then s.add path (.waiting lock) else s.miss.add path (.loading lock)

/-- A waiting task takes its lock, if it is free. Somebody may have loaded the path by then. -/
def wake? (s : SharedCache ε α) (task : Nat) : Option (SharedCache ε α) :=
  match s.tasks[task]? with
  | some ⟨path, .waiting lock⟩ =>
      if s.isHeld lock then none
      else
        match s.cache.find? path with
        | some value => some (s.hit.setPhase task (.done (.ok value)))
        | none => some (s.miss.setPhase task (.loading lock))
  | _ => none

def keep (s : SharedCache ε α) (path : Text) : Except ε α → SharedCache ε α
  | .ok value => { s with cache := s.cache.insert path value }
  | .error _ => s

def finish? (s : SharedCache ε α) (task : Nat) (result : Except ε α) :
    Option (SharedCache ε α) :=
  match s.tasks[task]? with
  | some ⟨path, .loading _⟩ => some ((s.keep path result).setPhase task (.done result))
  | _ => none

def forget (s : SharedCache ε α) : Option Text → SharedCache ε α
  | some path =>
      { s with
        cache := s.cache.drop path
        locks := s.locks.filter fun entry => entry.1 != path }
  | none => { s with cache := s.cache.clear, locks := [] }

def step? (s : SharedCache ε α) : CacheEvent ε α → Option (SharedCache ε α)
  | .ask path => some (s.ask path)
  | .wake task => s.wake? task
  | .finish task result => s.finish? task result
  | .forget path => some (s.forget path)

def run? (s : SharedCache ε α) (events : List (CacheEvent ε α)) : Option (SharedCache ε α) :=
  events.foldlM step? s

def loads (s : SharedCache ε α) (path : Text) : Nat :=
  s.tasks.countP fun task =>
    task.path == path &&
      match task.phase with
      | .loading _ => true
      | _ => false

/-! # Undisturbed tasks -/

theorem isBusy_eq_false {s : SharedCache ε α} (h : ∀ task ∈ s.tasks, task.phase.isDone = true)
    (lock : Nat) : s.isBusy lock = false := by
  simp only [isBusy, List.any_eq_false]
  intro task member
  have done := h task member
  cases hp : task.phase <;>
    simp_all [TaskPhase.isDone, TaskPhase.holds, TaskPhase.awaits]

@[simp] theorem tasks_lockFor (s : SharedCache ε α) (path : Text) :
    (s.lockFor path).2.tasks = s.tasks := by
  unfold lockFor
  split <;> rfl

@[simp] theorem cache_lockFor (s : SharedCache ε α) (path : Text) :
    (s.lockFor path).2.cache = s.cache := by
  unfold lockFor
  split <;> rfl

theorem isBusy_lockFor (s : SharedCache ε α) (path : Text) (lock : Nat) :
    (s.lockFor path).2.isBusy lock = s.isBusy lock := by
  simp [isBusy]

theorem cache_finish_ask {s : SharedCache ε α} {path : Text}
    (quiet : ∀ task ∈ s.tasks, task.phase.isDone = true) (missing : s.cache.find? path = none)
    (load : Unit → Except ε α) :
    ((s.ask path).finish? s.tasks.length (load ())).map (·.cache) =
      some (s.cache.get path load).2 := by
  have free := isBusy_eq_false quiet (s.lockFor path).1
  rw [← isBusy_lockFor s path] at free
  cases hl : load () <;>
    simp [ask, missing, free, miss, add, finish?, keep, setPhase, Cache.get, hl]

end SharedCache
end Stencil
