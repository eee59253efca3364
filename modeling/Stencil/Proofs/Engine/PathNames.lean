import Mathlib
import Stencil.Proofs.Engine.Transparency
import Stencil.Proofs.View.PathWalk

/-!
# Paths as names

What a name resolves to can be taken for a name again. It resolves to itself if nothing is left to
do: no slash at its start and no backslash, no blank at its ends, and an extension on its last
component. Not all paths are like that. A name is trimmed before the slashes at its start are taken
away, so a blank may come to light behind them, and a component of dots has no extension, not even
when one has been written behind it.
-/

namespace Stencil

/-! # Texts without blanks around them -/

namespace Text

structure IsBare (text : Text) : Prop where
  first : ∀ p ∈ text.points.head?, CodePoint.isChar isBlank p = false
  last : ∀ p ∈ text.points.getLast?, CodePoint.isChar isBlank p = false

theorem points_stripped (text : Text) :
    text.stripped.points =
      (text.points.dropWhile (CodePoint.isChar isBlank)).rdropWhile (CodePoint.isChar isBlank) :=
  rfl

theorem isInfix_stripped (text : Text) : text.stripped.points <:+: text.points := by
  rw [points_stripped]
  exact (List.rdropWhile_prefix _ _).isInfix.trans (List.dropWhile_suffix _).isInfix

theorem isBare_stripped (text : Text) : text.stripped.IsBare where
  first := by
    intro p hp
    rw [points_stripped] at hp
    rcases List.head?_eq_some_iff.mp hp with ⟨more, hmore⟩
    rcases List.rdropWhile_prefix (CodePoint.isChar isBlank)
      (text.points.dropWhile (CodePoint.isChar isBlank)) with ⟨rest, hrest⟩
    have hhead := List.head?_dropWhile_not (CodePoint.isChar isBlank) text.points
    rw [← hrest, hmore] at hhead
    simpa using hhead
  last := by
    intro p hp
    rw [points_stripped] at hp
    rcases List.mem_getLast?_eq_getLast hp with ⟨hne, rfl⟩
    simpa using List.rdropWhile_last_not _ _ hne

theorem stripped_of_isBare {text : Text} (h : text.IsBare) : text.stripped = text := by
  rcases text with ⟨points⟩
  have hfirst : points.dropWhile (CodePoint.isChar isBlank) = points := by
    cases points with
    | nil => rfl
    | cons p rest =>
        have hp := h.first p rfl
        rw [List.dropWhile_cons_of_neg (by simp [hp])]
  have hlast : points.rdropWhile (CodePoint.isChar isBlank) = points := by
    rw [List.rdropWhile_eq_self_iff]
    intro hne hblank
    rw [h.last _ (List.getLast_mem_getLast? hne)] at hblank
    cases hblank
  show (⟨(points.dropWhile _).rdropWhile _⟩ : Text) = ⟨points⟩
  rw [hfirst, hlast]

end Text

namespace ViewPath

/-! # Clean names -/

theorem backslash_notMem_clean (name : Text) : .char '\\' ∉ (clean name).points := by
  intro hmem
  have hmap := (Text.isInfix_stripped _).subset hmem
  rcases List.mem_map.mp hmap with ⟨p, -, hp⟩
  split at hp
  · cases hp
  next hplain => exact hplain (by rw [hp, beq_self_eq_true])

theorem clean_of_plain {name : Text} (h : .char '\\' ∉ name.points) :
    clean name = name.stripped := by
  have hmap : name.points.map (fun p => if p == .char '\\' then slash else p) = name.points := by
    conv => rhs; rw [← List.map_id name.points]
    refine List.map_congr_left fun p hp => if_neg ?_
    rw [beq_iff_eq]
    rintro rfl
    exact h hp
  rw [clean, hmap]

theorem dropWhile_slash_of_head? {points : List CodePoint} (h : points.head? ≠ some slash) :
    points.dropWhile (· == slash) = points := by
  cases points with
  | nil => rfl
  | cons p rest =>
      have hp : p ≠ slash := fun hp => h (by rw [hp]; rfl)
      rw [List.dropWhile_cons_of_neg (by simpa using hp)]

/-! # How far a walk leads -/

theorem length_components (points : List CodePoint) :
    (components points).length = points.count slash + 1 := by
  induction points with
  | nil => simp [components]
  | cons p rest ih =>
      rw [components] at ih
      rw [components, List.splitOnP_cons_eq_if_modifyHead]
      by_cases hp : p = slash
      · rw [if_pos (by rw [hp, beq_self_eq_true]), List.length_cons, ih, hp, List.count_cons_self]
      · rw [if_neg (by rwa [beq_iff_eq]), List.length_modifyHead, ih, List.count_cons_of_ne hp]

theorem walkStep?_sublist {place last : List Component} {part : Component}
    (h : walkStep? place part = some last) : last.Sublist (place ++ [part]) := by
  unfold walkStep? at h
  split at h
  · cases h
    exact List.sublist_append_left _ _
  · split at h
    · split at h
      · cases h
      · cases h
        exact (List.dropLast_sublist _).trans (List.sublist_append_left _ _)
    · cases h
      exact List.Sublist.refl _

theorem walk?_sublist {place parts last : List Component} (h : walk? place parts = some last) :
    last.Sublist (place ++ parts) := by
  induction parts generalizing place with
  | nil =>
      cases h
      rw [List.append_nil]
  | cons part rest ih =>
      rw [walk?, List.foldlM_cons, Option.bind_eq_bind, Option.bind_eq_some_iff] at h
      rcases h with ⟨next, hstep, hrest⟩
      have hnext := (walkStep?_sublist hstep).append_right rest
      rw [List.append_assoc, List.singleton_append] at hnext
      exact (ih hrest).trans hnext

/-! # What paths are made of -/

section Points

variable {parts : List Component} {p : CodePoint}

theorem cases_of_mem_intercalate (h : p ∈ [slash].intercalate parts) :
    p = slash ∨ ∃ part ∈ parts, p ∈ part := by
  induction parts with
  | nil => cases h
  | cons part rest ih =>
      cases rest with
      | nil =>
          rw [List.intercalate_singleton] at h
          exact .inr ⟨part, List.mem_singleton_self part, h⟩
      | cons next others =>
          simp only [List.intercalate_cons_cons, List.mem_append, List.mem_singleton] at h
          rcases h with (h | h) | h
          · exact .inr ⟨part, List.mem_cons_self, h⟩
          · exact .inl h
          · rcases ih h with hslash | ⟨other, hother, hmem⟩
            · exact .inl hslash
            · exact .inr ⟨other, List.mem_cons_of_mem part hother, hmem⟩

theorem subset_intercalate {part : Component} (hpart : part ∈ parts) :
    part ⊆ [slash].intercalate parts := by
  induction parts with
  | nil => cases hpart
  | cons first rest ih =>
      cases rest with
      | nil =>
          rw [List.intercalate_singleton, List.mem_singleton.mp hpart]
          exact List.Subset.refl _
      | cons next others =>
          rw [List.intercalate_cons_cons]
          rcases List.mem_cons.mp hpart with rfl | hpart
          · exact fun _ hp => List.mem_append_left _ (List.mem_append_left _ hp)
          · exact fun _ hp => List.mem_append_right _ (ih hpart hp)

theorem intercalate_components (points : List CodePoint) :
    [slash].intercalate (components points) = points :=
  List.intercalate_splitOn slash

end Points

/-! # Where paths begin -/

theorem exists_rootSlashes {points : List CodePoint} (h : points.head? = some slash) :
    ∃ more, rootSlashes points = more + 1 := by
  rcases List.head?_eq_some_iff.mp h with ⟨rest, rfl⟩
  have hcount : ((slash :: rest).takeWhile (· == slash)).length =
      (rest.takeWhile (· == slash)).length + 1 := rfl
  rw [rootSlashes, hcount]
  split
  · exact ⟨1, rfl⟩
  · exact ⟨0, Nat.min_eq_right (Nat.le_add_left 1 _)⟩

theorem head?_of_rooted {viewsType name path : Text} {relativeTo : Option Text}
    (h : resolve viewsType name relativeTo = .ok path)
    (hhead : (located (clean name).points relativeTo).head? = some slash) :
    path.points.head? = some slash := by
  rcases exists_rootSlashes hhead with ⟨more, hmore⟩
  have hpoints (path : Normal) (hpath : path.slashes = more + 1) :
      (withExtension viewsType path).head? = some slash := by
    rw [withExtension, Normal.points, hpath, List.replicate_succ]
    split <;> rfl
  rw [resolve, resolve?] at h
  by_cases hinside : (normalize (located (clean name).points relativeTo)).isInside = true
  · rw [if_pos hinside] at h
    cases h
    exact hpoints _ hmore
  · rw [if_neg hinside] at h
    cases h

theorem isBelow_of_none : ∀ base, (none : Option Text) = some base → IsBelow base := by
  rintro base ⟨⟩

/-! # Settled paths -/

/-- A path for which nothing is left to do when it is taken for a name. -/
structure IsSettled (path : Text) : Prop where
  unrooted : path.points.head? ≠ some slash
  plain : .char '\\' ∉ path.points
  bare : path.IsBare
  extended : ∀ last ∈ (components path.points).getLast?, IsExtended last

section Fixed

variable {viewsType path : Text}

theorem resolve_of_isSettled (hbelow : IsBelow path) (h : IsSettled path) :
    resolve viewsType path none = .ok path := by
  rcases hbelow with ⟨place, last, hproper, hpoints⟩
  have hcomponents : components path.points = place ++ [last] := by
    rw [hpoints, components_written hproper]
  have hclean : clean path = path := by
    rw [clean_of_plain h.plain, Text.stripped_of_isBare h.bare]
  have hstart : path.points.dropWhile (· == slash) = path.points :=
    dropWhile_slash_of_head? h.unrooted
  have hend : endPlace? path none = some (place ++ [last]) := by
    rw [endPlace?, hclean, hstart, hcomponents]
    exact walk?_proper hproper
  have hextended : IsExtended last := by
    refine h.extended last ?_
    rw [hcomponents, List.getLast?_concat]
    rfl
  rw [(resolve_of_endPlace? viewsType isBelow_of_none hend).2, ending,
    if_pos (hasExtension_iff.mpr hextended), List.append_nil, ← hpoints]

variable (htype : viewsType.points.all (CodePoint.isChar Char.isAlphanum) = true)

include htype

theorem of_mem_ending {last : Component} {p : CodePoint} (hp : p ∈ ending viewsType last) :
    p = dot ∨ CodePoint.isChar Char.isAlphanum p = true := by
  unfold ending at hp
  split at hp
  · cases hp
  · rcases List.mem_cons.mp hp with hp | hp
    · exact .inl hp
    · exact .inr (List.all_eq_true.mp htype p hp)

theorem not_isBlank_of_mem_ending {last : Component} {p : CodePoint}
    (hp : p ∈ ending viewsType last) : CodePoint.isChar Text.isBlank p = false := by
  rcases of_mem_ending htype hp with rfl | halnum
  · decide
  · cases p with
    | surrogate index => rfl
    | char c =>
        have hname : isNameChar c = true := by
          rw [isNameChar, show c.isAlphanum = true from halnum]
          rfl
        exact Grammar.isBlank_of_isNameChar hname

theorem backslash_notMem_of_resolve {name : Text} (h : resolve viewsType name none = .ok path) :
    .char '\\' ∉ path.points := by
  rcases exists_endPlace_of_resolve viewsType isBelow_of_none h with ⟨place, last, hend, -, hpoints⟩
  intro hmem
  rw [hpoints, intercalate_concat_append] at hmem
  rcases List.mem_append.mp hmem with hmem | hmem
  · rcases cases_of_mem_intercalate hmem with hslash | ⟨part, hpart, hmem⟩
    · exact absurd hslash (by decide)
    · have hthere := subset_intercalate ((walk?_sublist hend).subset hpart) hmem
      rw [startPlace, List.nil_append, intercalate_components] at hthere
      exact backslash_notMem_clean name ((List.dropWhile_sublist _).subset hthere)
  · rcases of_mem_ending htype hmem with hdot | halnum
    · exact absurd hdot (by decide)
    · exact absurd halnum (by decide)

/--
Where a name is a path again, at most an extension has been written behind it: the walk goes
through as many components as the path has, so none was skipped and none taken back.
-/
theorem eq_stripped_of_resolve (h : resolve viewsType path none = .ok path) :
    ∃ place last, components path.stripped.points = place ++ [last] ∧ last.IsProper ∧
      path.points = path.stripped.points ++ ending viewsType last := by
  rcases exists_endPlace_of_resolve viewsType isBelow_of_none h with
    ⟨place, last, hend, hproper, hpoints⟩
  have hclean := clean_of_plain (backslash_notMem_of_resolve htype h)
  have hwalk := walk?_sublist hend
  rw [startPlace, List.nil_append, hclean] at hwalk
  have hcount : path.points.count slash + 1 = (place ++ [last]).length := by
    rw [← length_components, hpoints, components_written (isProper_written htype hproper),
      List.length_append, List.length_append]
    rfl
  have hinside := (Text.isInfix_stripped path).count_le slash
  have hunrooted : path.stripped.points.head? ≠ some slash := by
    intro hslash
    rcases List.head?_eq_some_iff.mp hslash with ⟨rest, hrest⟩
    have hlength := hwalk.length_le
    have hdrop : (slash :: rest).dropWhile (· == slash) = rest.dropWhile (· == slash) := rfl
    rw [hrest, hdrop, length_components] at hlength
    have hdropped := (@List.dropWhile_sublist _ rest (· == slash)).count_le slash
    rw [hrest, List.count_cons_self] at hinside
    omega
  rw [dropWhile_slash_of_head? hunrooted] at hwalk
  have hsame : place ++ [last] = components path.stripped.points := by
    refine hwalk.eq_of_length_le ?_
    rw [length_components]
    omega
  refine ⟨place, last, hsame.symm, hproper last (by simp), ?_⟩
  rw [hpoints, intercalate_concat_append, hsame, intercalate_components]

theorem isSettled_of_resolve (h : resolve viewsType path none = .ok path) : IsSettled path := by
  rcases eq_stripped_of_resolve htype h with ⟨place, last, hcomponents, hlast, hpoints⟩
  have hstripped := Text.isBare_stripped path
  have hne : path.stripped.points ≠ [] := by
    intro hnil
    rw [hnil] at hcomponents
    have hmem : last ∈ components [] := by simp [hcomponents]
    exact hlast.ne_nil (by simpa [components] using hmem)
  have hbare : path.IsBare := by
    constructor
    · intro p hp
      rw [hpoints, List.head?_append_of_ne_nil _ hne] at hp
      exact hstripped.first p hp
    · intro p hp
      rw [hpoints, List.getLast?_append] at hp
      rcases Option.or_eq_some_iff.mp hp with hp | ⟨-, hp⟩
      · exact not_isBlank_of_mem_ending htype (List.mem_of_getLast? hp)
      · exact hstripped.last p hp
  have hpath : path.stripped = path := Text.stripped_of_isBare hbare
  rw [hpath] at hcomponents hpoints
  have hending : ending viewsType last = [] := List.self_eq_append_right.mp hpoints
  have hextended : hasExtension last = true := by
    by_contra hbare
    rw [ending, if_neg hbare] at hending
    cases hending
  rcases isBelow_of_resolve htype isBelow_of_none h with ⟨before, final, hproper, hwritten⟩
  constructor
  · rw [hwritten]
    simpa using head?_written hproper []
  · exact backslash_notMem_of_resolve htype h
  · exact hbare
  · intro part hpart
    rw [hcomponents, List.getLast?_concat] at hpart
    cases hpart
    exact hasExtension_iff.mp hextended

theorem resolve_self_iff :
    resolve viewsType path none = .ok path ↔ IsBelow path ∧ IsSettled path := by
  constructor
  · intro h
    exact ⟨isBelow_of_resolve htype isBelow_of_none h, isSettled_of_resolve htype h⟩
  · rintro ⟨hbelow, hsettled⟩
    exact resolve_of_isSettled hbelow hsettled

theorem isBelow_of_unrooted {name : Text} {relativeTo : Option Text}
    (h : resolve viewsType name relativeTo = .ok path)
    (hunrooted : path.points.head? ≠ some slash) : IsBelow path := by
  by_cases hhead : (located (clean name).points relativeTo).head? = some slash
  · exact absurd (head?_of_rooted h hhead) hunrooted
  · cases hwalk : walk? [] (components (located (clean name).points relativeTo)) with
    | none =>
        rw [resolve, resolve?, isInside_eq_false_of_walk? hhead hwalk] at h
        cases h
    | some found =>
        rcases List.eq_nil_or_concat found with rfl | ⟨place, last, rfl⟩
        · rw [resolve, resolve?, normalize_of_walk? hhead hwalk] at h
          cases h
        · rw [List.concat_eq_append] at hwalk
          rcases resolve_of_walk? viewsType hhead hwalk with ⟨hproper, hresolve⟩
          rw [hresolve] at h
          cases h
          exact ⟨place, last ++ ending viewsType last, isProper_written htype hproper, rfl⟩

end Fixed

/-! # Paths in use -/

theorem said_of_resolve {viewsType name path : Text} (h : resolve viewsType name none = .ok path) :
    Text.said (some name) = some name := by
  rcases name with ⟨points⟩
  cases points with
  | nil => cases h
  | cons p rest => rfl

end ViewPath

namespace Engine

variable {engine : Engine} {name path : Text}

theorem viewsType_source (engine : Engine) : engine.source.viewsType = engine.viewsType := by
  unfold source
  split <;> rfl

theorem renderNamed_of_resolve (h : ViewPath.resolve engine.viewsType name none = .ok path)
    (host : Host) (data : Value) :
    renderNamed (engine.setup host) engine.helpers name data = (do
      let nodes ← Rendering.fetch engine.source path
      renderOver (engine.setup host) engine.helpers (some path) data nodes) := by
  rw [← engine.viewsType_source] at h
  rw [renderNamed, show (engine.setup host).source = engine.source from rfl, h]

theorem clearCache_of_resolve (h : ViewPath.resolve engine.viewsType name none = .ok path) :
    engine.clearCache (some name) =
      (.ok (), { engine with cache := engine.cache.map fun cache => cache.drop path }) := by
  rw [clearCache, ViewPath.said_of_resolve h]
  rcases engine with ⟨settings, viewsType, shelf, files, cache, helpers, store, journal⟩
  cases cache with
  | none => rfl
  | some cache =>
      dsimp only at h ⊢
      rw [h]
      rfl

end Engine

theorem MemoryViews.add_of_resolve {viewsType name path : Text}
    (h : ViewPath.resolve viewsType name none = .ok path) (views : MemoryViews) (text : String) :
    views.add viewsType name text = .ok (path, views.set path text) ∧
      ((views.set path text).source viewsType).read path = .ok text := by
  constructor
  · rw [add, h]
    rfl
  · have htext : (views.set path text).text? path = some text := by
      rw [text?_set, if_pos rfl]
    rw [source]
    dsimp only
    rw [htext]

namespace ViewPath

/--
A path that a name resolves to, relative to anything or to nothing, resolves to itself if and only
if it is settled. If the name was not relative, the path begins with no slash and holds no
backslash, so that only blanks and dots can unsettle it. A settled path is a name of its own view:
a render by the path and clearing the path work on the view there. So they do on a view that was
added under a name, and on one that was included.
-/
theorem resolve_stable_iff {viewsType : Text}
    (htype : viewsType.points.all (CodePoint.isChar Char.isAlphanum) = true)
    {name path : Text} {relativeTo : Option Text}
    (hpath : resolve viewsType name relativeTo = .ok path) :
    (resolve viewsType path none = .ok path ↔ IsSettled path) ∧
    (relativeTo = none →
      (path.points.head? ≠ some slash ∧ .char '\\' ∉ path.points) ∧
      ∀ (views : MemoryViews) (text : String),
        views.add viewsType name text = .ok (path, views.set path text) ∧
          ((views.set path text).source viewsType).read path = .ok text) ∧
    (IsSettled path → ∀ engine : Engine, engine.viewsType = viewsType →
      (∀ host data, renderNamed (engine.setup host) engine.helpers path data = do
        let nodes ← Rendering.fetch engine.source path
        renderOver (engine.setup host) engine.helpers (some path) data nodes) ∧
      engine.clearCache (some path) =
        (.ok (), { engine with cache := engine.cache.map fun cache => cache.drop path }) ∧
      (relativeTo = none →
        (∀ host data, renderNamed (engine.setup host) engine.helpers path data =
          renderNamed (engine.setup host) engine.helpers name data) ∧
        engine.clearCache (some path) = engine.clearCache (some name))) := by
  have hstable : resolve viewsType path none = .ok path ↔ IsSettled path := by
    rw [resolve_self_iff htype]
    constructor
    · exact And.right
    · intro hsettled
      exact ⟨isBelow_of_unrooted htype hpath hsettled.unrooted, hsettled⟩
  refine ⟨hstable, ?_, ?_⟩
  · rintro rfl
    have hbelow : IsBelow path := isBelow_of_resolve htype isBelow_of_none hpath
    rcases hbelow with ⟨place, last, hproper, hpoints⟩
    refine ⟨⟨?_, backslash_notMem_of_resolve htype hpath⟩, ?_⟩
    · rw [hpoints]
      simpa using head?_written hproper []
    · exact MemoryViews.add_of_resolve hpath
  · rintro hsettled engine rfl
    have hself := hstable.mpr hsettled
    refine ⟨Engine.renderNamed_of_resolve hself, Engine.clearCache_of_resolve hself, ?_⟩
    rintro rfl
    constructor
    · intro host data
      rw [Engine.renderNamed_of_resolve hself, Engine.renderNamed_of_resolve hpath]
    · rw [Engine.clearCache_of_resolve hself, Engine.clearCache_of_resolve hpath]

/-- A name that is written in a roundabout way, and its path. -/
theorem resolve_stable_iff_roundabout :
    IsSettled "a/b c.html" ∧
      resolve "html" " /a\\./x/../b c " none = .ok "a/b c.html" ∧
      resolve "html" "a/b c.html" none = .ok "a/b c.html" := by
  have hpath : resolve "html" " /a\\./x/../b c " none = .ok "a/b c.html" := rfl
  have hsettled : IsSettled "a/b c.html" := by
    constructor
    · decide
    · decide
    · exact ⟨by decide, by decide⟩
    · rintro last ⟨⟩
      exact hasExtension_iff.mp rfl
  exact ⟨hsettled, hpath, (resolve_stable_iff (by decide) hpath).1.mpr hsettled⟩

/-- A blank that comes to light is trimmed the next time, and dots get extension after extension. -/
theorem resolve_unstable :
    resolve "html" "/ a" none = .ok " a.html" ∧ resolve "html" " a.html" none = .ok "a.html" ∧
      resolve "html" "..." none = .ok "....html" ∧
        resolve "html" "....html" none = .ok "....html.html" :=
  ⟨rfl, rfl, rfl, rfl⟩

end ViewPath
end Stencil
