import Stencil.Proofs.Expression.Effects
import Stencil.Render.State

/-!
# What renders keep

A render may change the cache in its own way only, and ends with a value of some kind
or with a trouble of some kind. Both are put together step by step, as the render is.
-/

namespace Stencil

/-! # Caches -/

def CacheHolds (test : Text × List Node → Prop) (cache : Option (Cache (List Node))) : Prop :=
  ∀ found ∈ cache, ∀ entry ∈ found.entries, test entry

section Caches

variable {test : Text × List Node → Prop} {cache after : Cache (List Node)} {path : Text}
  {nodes : List Node}

theorem Cache.mem_of_find? {α : Type} {cache : Cache α} {a : α} (h : cache.find? path = some a) :
    (path, a) ∈ cache.entries := by
  rcases Option.map_eq_some_iff.mp h with ⟨entry, hentry, rfl⟩
  have hpath : entry.1 = path := by simpa using List.find?_some hentry
  rw [← hpath]
  exact List.mem_of_find?_eq_some hentry

theorem CacheHolds.none : CacheHolds test none := by
  intro found hfound
  cases hfound

theorem CacheHolds.empty : CacheHolds test (some .empty) := by
  intro found hfound
  cases hfound
  intro entry hentry
  cases hentry

theorem CacheHolds.of_subset (h : CacheHolds test (some cache))
    (hsub : after.entries ⊆ cache.entries) : CacheHolds test (some after) := by
  intro found hfound
  cases hfound
  intro entry hentry
  exact h cache rfl entry (hsub hentry)

theorem CacheHolds.insert (h : CacheHolds test (some cache)) (hnew : test (path, nodes)) :
    CacheHolds test (some (cache.insert path nodes)) := by
  intro found hfound
  cases hfound
  intro entry hentry
  rcases List.mem_append.mp hentry with hold | hentry
  · exact h cache rfl entry (List.mem_filter.mp hold).1
  · cases List.mem_singleton.mp hentry
    exact hnew

theorem Rendering.fetch_holds {source : ViewSource} {s : RenderState}
    (h : CacheHolds test s.cache)
    (htest : ∀ nodes, source.parsed path = .ok nodes → test (path, nodes)) :
    ∃ result cache, fetch source path s = (result, { s with cache := cache }) ∧
      CacheHolds test cache ∧
      (result = source.parsed path ∨ ∃ nodes, result = .ok nodes ∧ test (path, nodes)) := by
  rcases s with ⟨store, cache, events, includes⟩
  cases cache with
  | none => exact ⟨_, none, rfl, h, .inl rfl⟩
  | some cache =>
      have hsame : ∀ after : Cache (List Node), after.entries = cache.entries →
          CacheHolds test (some after) := by
        intro after hafter
        apply h.of_subset
        rw [hafter]
        exact List.Subset.refl _
      dsimp only [fetch, Cache.get]
      cases hfound : cache.find? path with
      | some nodes =>
          have hnodes := h cache rfl _ (Cache.mem_of_find? hfound)
          exact ⟨.ok nodes, some cache.hit, rfl, hsame _ rfl, .inr ⟨nodes, rfl, hnodes⟩⟩
      | none =>
          dsimp only
          cases hparsed : source.parsed path with
          | ok nodes =>
              exact ⟨_, _, rfl, (hsame cache.miss rfl).insert (htest nodes hparsed), .inl rfl⟩
          | error trouble => exact ⟨_, _, rfl, hsame cache.miss rfl, .inl rfl⟩

end Caches

namespace Rendering

theorem store_fetch (source : ViewSource) (path : Text) (s : RenderState) :
    (fetch source path s).2.store = s.store := by
  unfold fetch
  split <;> rfl

theorem includes_fetch (source : ViewSource) (path : Text) (s : RenderState) :
    (fetch source path s).2.includes = s.includes := by
  unfold fetch
  split <;> rfl

structure Ends {α : Type} (kept : Option (Cache (List Node)) → Prop) (may : Trouble → Prop)
    (gives : α → Prop) (run : Except Trouble α × RenderState) : Prop where
  cache : kept run.2.cache
  value : ∀ a, run.1 = .ok a → gives a
  trouble : ∀ trouble, run.1 = .error trouble → may trouble

def Keeps {α : Type} (kept : Option (Cache (List Node)) → Prop) (may : Trouble → Prop)
    (gives : α → Prop) (action : Rendering α) : Prop :=
  ∀ s : RenderState, kept s.cache → Ends kept may gives (action s)

section Steps

variable {α β : Type} {kept : Option (Cache (List Node)) → Prop} {may : Trouble → Prop}
  {gives : α → Prop}

theorem Ends.ok {a : α} {s : RenderState} (hcache : kept s.cache) (ha : gives a) :
    Ends kept may gives (.ok a, s) := by
  constructor
  · exact hcache
  · intro b hb
    cases hb
    exact ha
  · intro trouble htrouble
    cases htrouble

theorem Ends.error {trouble : Trouble} {s : RenderState} (hcache : kept s.cache)
    (htrouble : may trouble) :
    Ends kept may gives (.error trouble, s) := by
  constructor
  · exact hcache
  · intro a ha
    cases ha
  · intro other hother
    cases hother
    exact htrouble

theorem Keeps.pure {a : α} (ha : gives a) :
    Keeps kept may gives (Pure.pure a : Rendering α) := by
  intro s hs
  exact .ok hs ha

theorem Keeps.throw {trouble : Trouble} (htrouble : may trouble) :
    Keeps kept may gives (throw trouble : Rendering α) := by
  intro s hs
  exact .error hs htrouble

theorem Keeps.bind {action : Rendering α} (haction : Keeps kept may gives action)
    {results : β → Prop} {next : α → Rendering β}
    (hnext : ∀ a, gives a → Keeps kept may results (next a)) :
    Keeps kept may results (action >>= next) := by
  intro s hs
  have hends := haction s hs
  rw [bind_def]
  generalize action s = run at hends
  rcases run with ⟨result, after⟩
  cases result with
  | ok a => exact hnext a (hends.value a rfl) after hends.cache
  | error trouble => exact .error hends.cache (hends.trouble trouble rfl)

theorem Keeps.steady {action : Rendering α}
    (h : ∀ s, ∃ a after, action s = (.ok a, after) ∧ after.cache = s.cache ∧ gives a) :
    Keeps kept may gives action := by
  intro s hs
  rcases h s with ⟨a, after, hrun, hcache, ha⟩
  rw [hrun]
  apply Ends.ok
  · rwa [hcache]
  · exact ha

theorem Keeps.read {gives : RenderState → Prop} (h : ∀ s, gives s) :
    Keeps kept may gives (get : Rendering RenderState) :=
  .steady fun s => ⟨s, s, rfl, rfl, h s⟩

theorem Keeps.note (event : Event) :
    Keeps kept may (fun _ => True) (note event) :=
  .steady fun s => ⟨(), { s with events := event :: s.events }, rfl, rfl, trivial⟩

theorem Keeps.addInclude (path : Text) :
    Keeps kept may (fun _ => True) (addInclude path) :=
  .steady fun s => ⟨(), { s with includes := path :: s.includes }, rfl, rfl, trivial⟩

theorem Keeps.onStore {f : Store → α × Store} (h : ∀ σ, gives (f σ).1) :
    Keeps kept may gives (onStore f) :=
  .steady fun s => ⟨(f s.store).1, { s with store := (f s.store).2 }, rfl, rfl, h s.store⟩

theorem Keeps.attempt {action : Rendering α} {fails : Trouble → Prop}
    (haction : Keeps kept fails gives action) :
    Keeps kept may
      (fun result => (∀ a, result = .ok a → gives a) ∧ ∀ t, result = .error t → fails t)
      (attempt action) := by
  intro s hs
  have hends := haction s hs
  exact .ok hends.cache ⟨hends.value, hends.trouble⟩

theorem Keeps.recover (source : String) {action : Evaluation α} (instead : α)
    (hmay : ∀ σ failure again, (action σ).1 = .error failure → failure.told = .error again →
      may again.trouble) :
    Keeps kept may (fun _ => True) (recover source action instead) := by
  have hrun : Keeps kept may (fun result => ∃ σ, (action σ).1 = result)
      (Rendering.onStore action) := .onStore fun σ => ⟨σ, rfl⟩
  apply hrun.bind
  rintro result ⟨σ, hresult⟩
  cases result with
  | ok a => exact .pure trivial
  | error failure =>
      dsimp only
      cases htold : failure.told with
      | ok text => exact (Keeps.note _).bind fun _ _ => .pure trivial
      | error again => exact .throw (hmay σ failure again hresult htold)

section Host

variable {host : Host} (hmay : ∀ again, host.Escapes again → may again.trouble)

include hmay

theorem Keeps.valueOf (scope : Nat) (source : String) :
    Keeps kept may (fun _ => True) (valueOf host scope source) := by
  have hevals := Evaluation.changes_evalSource (Evaluation.allows_raises host scope) source
  exact .recover source _ fun _ _ again hfailure hagain =>
    hmay again (Evaluation.escapes_of_changes hevals hfailure hagain)

theorem Keeps.textOf (scope : Nat) (source : String) :
    Keeps kept may (fun _ => True) (textOf host scope source) := by
  have hevals := Evaluation.changes_textOfSource (Evaluation.allows_raises host scope) source
  exact .recover source _ fun _ _ again hfailure hagain =>
    hmay again (Evaluation.escapes_of_changes hevals hfailure hagain)

end Host

end Steps

end Rendering
end Stencil
