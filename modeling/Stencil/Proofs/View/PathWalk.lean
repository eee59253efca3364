import Stencil.Proofs.Outcome
import Stencil.View.Path

/-!
# Names as walks

The name of a view is a walk. It begins at the root of all views, or at the directory of the
including view, and goes from component to component. A walk that would lead above the root
leads nowhere, even if it would come back.

A name resolves to the place at which its walk ends, unless that is the root. So what a name
resolves to lies below the root.
-/

namespace Stencil
namespace ViewPath

/-! # Walks -/

/--
One step of a walk. A place is given by the components on the way to it, outermost first.
-/
def walkStep? (place : List Component) (part : Component) : Option (List Component) :=
  if part = [] ∨ part = [dot] then some place
  else if part = parent then
    if place = [] then none else some place.dropLast
  else some (place ++ [part])

def walk? (place parts : List Component) : Option (List Component) :=
  parts.foldlM walkStep? place

def startPlace (name : List CodePoint) (relativeTo : Option Text) : List Component :=
  match relativeTo with
  | some base => if isRelative name then (components base.points).dropLast else []
  | none => []

def endPlace? (name : Text) (relativeTo : Option Text) : Option (List Component) :=
  let points := (clean name).points
  walk? (startPlace points relativeTo) (components (points.dropWhile (· == slash)))

/-- What the loader of views resolves names to, each name relative to such a path or to none. -/
inductive Resolved (viewsType : Text) : Text → Prop where
  | intro {name path : Text} {relativeTo : Option Text} :
      (∀ base, relativeTo = some base → Resolved viewsType base) →
      resolve viewsType name relativeTo = .ok path →
      Resolved viewsType path

def IsExtended (part : Component) : Prop :=
  ∃ before after, part = before ++ dot :: after ∧ ∃ point ∈ before, point ≠ dot

/-- A component that names something: a directory, or a view. -/
structure Component.IsProper (part : Component) : Prop where
  ne_nil : part ≠ []
  ne_dot : part ≠ [dot]
  ne_parent : part ≠ parent
  slash_notMem : slash ∉ part

/-! # Texts and components -/

theorem components_append (before after : List CodePoint) :
    components (before ++ slash :: after) = components before ++ components after :=
  List.splitOnP_append_cons before after (beq_self_eq_true slash)

theorem components_intercalate {place : List Component}
    (hplace : ∀ part ∈ place, slash ∉ part) (hne : place ≠ []) :
    components ([slash].intercalate place) = place :=
  List.splitOn_intercalate slash hplace hne

theorem slash_notMem_of_mem_components {points : List CodePoint} :
    ∀ part ∈ components points, slash ∉ part := by
  induction points with
  | nil => simp [components]
  | cons point rest ih =>
      intro part hpart
      rw [components, List.splitOnP_cons_eq_if_modifyHead] at hpart
      split at hpart
      · rcases List.mem_cons.mp hpart with rfl | hpart
        · simp
        · exact ih part hpart
      next hpoint =>
          cases hrest : rest.splitOnP (· == slash) with
          | nil => exact absurd hrest (List.splitOnP_ne_nil _ _)
          | cons first others =>
              rw [components, hrest] at ih
              rw [hrest, List.modifyHead_cons] at hpart
              rcases List.mem_cons.mp hpart with rfl | hpart
              · have hne : slash ≠ point := by
                  rintro rfl
                  exact hpoint (beq_self_eq_true slash)
                simpa [hne] using ih first List.mem_cons_self
              · exact ih part (List.mem_cons_of_mem _ hpart)

theorem intercalate_concat {place : List Component} (hne : place ≠ []) (last : Component) :
    [slash].intercalate (place ++ [last]) = [slash].intercalate place ++ slash :: last := by
  induction place with
  | nil => exact absurd rfl hne
  | cons first rest ih =>
      cases rest with
      | nil => simp [List.intercalate_cons_cons]
      | cons next others =>
          have htail := ih (List.cons_ne_nil next others)
          simp only [List.cons_append, List.intercalate_cons_cons] at htail ⊢
          rw [htail]
          simp

theorem intercalate_concat_append (place : List Component) (last ending : Component) :
    [slash].intercalate (place ++ [last ++ ending]) =
      [slash].intercalate (place ++ [last]) ++ ending := by
  cases place with
  | nil => simp
  | cons first rest =>
      rw [intercalate_concat (List.cons_ne_nil first rest),
        intercalate_concat (List.cons_ne_nil first rest)]
      simp

/-! # Walks and normal forms -/

section Walks

variable {place last parts : List Component} {part : Component}

theorem walkStep?_proper (hpart : part.IsProper) :
    walkStep? place part = some (place ++ [part]) := by
  simp [walkStep?, hpart.ne_nil, hpart.ne_dot, hpart.ne_parent]

theorem walk?_proper (hparts : ∀ part ∈ parts, part.IsProper) :
    walk? place parts = some (place ++ parts) := by
  induction parts generalizing place with
  | nil => simp [walk?]
  | cons part rest ih =>
      have hstep : walkStep? place part = some (place ++ [part]) :=
        walkStep?_proper (hparts part List.mem_cons_self)
      have hrest := @ih (place ++ [part]) fun other hother =>
        hparts other (List.mem_cons_of_mem _ hother)
      rw [walk?, List.foldlM_cons, hstep]
      simpa [walk?] using hrest

theorem walk?_append (more : List Component) :
    walk? place (parts ++ more) = (walk? place parts).bind fun next => walk? next more := by
  rw [walk?, List.foldlM_append]
  rfl

theorem isProper_of_walkStep? (hplace : ∀ part ∈ place, part.IsProper) (hpart : slash ∉ part)
    (hlast : walkStep? place part = some last) : ∀ part ∈ last, part.IsProper := by
  unfold walkStep? at hlast
  split at hlast
  · cases hlast
    exact hplace
  next hsome =>
      split at hlast
      · split at hlast
        · cases hlast
        · cases hlast
          intro other hother
          exact hplace other (List.dropLast_subset place hother)
      next hparent =>
          cases hlast
          intro other hother
          rcases List.mem_append.mp hother with hother | hother
          · exact hplace other hother
          · cases List.mem_singleton.mp hother
            exact ⟨fun h => hsome (.inl h), fun h => hsome (.inr h), hparent, hpart⟩

theorem step_of_walkStep? (hplace : ∀ part ∈ place, part.IsProper)
    (hlast : walkStep? place part = some last) :
    step false place.reverse part = last.reverse := by
  unfold walkStep? at hlast
  unfold step
  split at hlast
  next hskip =>
      cases hlast
      rcases hskip with rfl | rfl <;> rfl
  next hsome =>
      have hskip : (part.isEmpty || part == [dot]) = false := by simpa [not_or] using hsome
      rw [hskip]
      split at hlast
      next hparent =>
          subst hparent
          split at hlast
          · cases hlast
          next hne =>
              cases hlast
              rcases List.eq_nil_or_concat place with rfl | ⟨front, top, rfl⟩
              · exact absurd rfl hne
              · have htop : top ≠ parent := (hplace top (by simp)).ne_parent
                simp [htop]
      next hparent =>
          cases hlast
          simp [hparent]

theorem exists_foldl_step_parent (above parts : List Component) :
    ∃ more, parts.foldl (step false) (above ++ [parent]) = more ++ [parent] := by
  induction parts generalizing above with
  | nil => exact ⟨above, rfl⟩
  | cons part rest ih =>
      have hstep : ∃ next, step false (above ++ [parent]) part = next ++ [parent] := by
        unfold step
        split
        · exact ⟨above, rfl⟩
        · split
          · cases above with
            | nil => exact ⟨[parent], rfl⟩
            | cons top front =>
                dsimp only [List.cons_append]
                split
                · exact ⟨parent :: top :: front, rfl⟩
                · exact ⟨front, rfl⟩
          · exact ⟨part :: above, rfl⟩
      rcases hstep with ⟨next, hnext⟩
      rw [List.foldl_cons, hnext]
      exact ih next

theorem walkStep?_eq_none (hstep : walkStep? place part = none) : place = [] ∧ part = parent := by
  unfold walkStep? at hstep
  split at hstep
  · cases hstep
  · split at hstep
    next hparent =>
        split at hstep
        next hroot => exact ⟨hroot, hparent⟩
        · cases hstep
    · cases hstep

/--
The normal form of a row of components is the place to which they lead. If they lead above the
root, it begins with a parent component.
-/
theorem foldl_step_of_walk? (hplace : ∀ part ∈ place, part.IsProper)
    (hparts : ∀ part ∈ parts, slash ∉ part) :
    (∀ last, walk? place parts = some last →
      (∀ part ∈ last, part.IsProper) ∧ parts.foldl (step false) place.reverse = last.reverse) ∧
    (walk? place parts = none →
      ∃ more, parts.foldl (step false) place.reverse = more ++ [parent]) := by
  induction parts generalizing place with
  | nil =>
      constructor
      · intro last hlast
        cases hlast
        exact ⟨hplace, rfl⟩
      · intro hnone
        cases hnone
  | cons part rest ih =>
      have hpart : slash ∉ part := hparts part List.mem_cons_self
      have hrest : ∀ other ∈ rest, slash ∉ other := fun other hother =>
        hparts other (List.mem_cons_of_mem _ hother)
      rw [walk?, List.foldlM_cons, Option.bind_eq_bind, List.foldl_cons]
      cases hstep : walkStep? place part with
      | none =>
          rcases walkStep?_eq_none hstep with ⟨rfl, rfl⟩
          constructor
          · intro last hlast
            cases hlast
          · intro _
            exact exists_foldl_step_parent [] rest
      | some next =>
          rw [Option.bind_some, step_of_walkStep? hplace hstep]
          exact ih (isProper_of_walkStep? hplace hpart hstep) hrest

end Walks

/-! # Normal forms -/

section Normal

variable {points : List CodePoint} (hpoints : points.head? ≠ some slash)

include hpoints

theorem rootSlashes_eq_zero : rootSlashes points = 0 := by
  cases points with
  | nil => rfl
  | cons point rest =>
      have hpoint : (point == slash) = false := by simpa using hpoints
      simp [rootSlashes, hpoint]

theorem normalize_of_walk? {place : List Component}
    (hwalk : walk? [] (components points) = some place) : normalize points = ⟨0, place⟩ := by
  have hfold := ((foldl_step_of_walk? (by simp) slash_notMem_of_mem_components).1 place hwalk).2
  rw [List.reverse_nil] at hfold
  rw [normalize, rootSlashes_eq_zero hpoints]
  simp [hfold]

theorem isInside_eq_false_of_walk? (hwalk : walk? [] (components points) = none) :
    (normalize points).isInside = false := by
  have hfold := (foldl_step_of_walk? (by simp) slash_notMem_of_mem_components).2 hwalk
  rw [List.reverse_nil] at hfold
  rcases hfold with ⟨more, hmore⟩
  rw [normalize, rootSlashes_eq_zero hpoints]
  simp [Normal.isInside, hmore]

end Normal

/-! # Where the walk of a name begins -/

def IsBelow (path : Text) : Prop :=
  ∃ (place : List Component) (last : Component),
    (∀ part ∈ place ++ [last], part.IsProper) ∧
      path.points = [slash].intercalate (place ++ [last])

section Places

variable {place : List Component} {last : Component}
  (hproper : ∀ part ∈ place ++ [last], part.IsProper)

include hproper

theorem head?_written (more : List CodePoint) :
    ([slash].intercalate (place ++ [last]) ++ more).head? ≠ some slash := by
  have hhead : ∀ first rest, place ++ [last] = first :: rest →
      ([slash].intercalate (first :: rest) ++ more).head? ≠ some slash := by
    intro first rest hfirst
    have hmem : first.IsProper := hproper first (by simp [hfirst])
    cases first with
    | nil => exact absurd rfl hmem.ne_nil
    | cons point others =>
        have hpoint : point ≠ slash := by
          rintro rfl
          exact hmem.slash_notMem List.mem_cons_self
        cases rest <;> simpa [List.intercalate_cons_cons] using hpoint
  cases place with
  | nil => exact hhead last [] rfl
  | cons first rest => exact hhead first (rest ++ [last]) rfl

theorem exists_intercalate_eq_concat :
    ∃ front point, [slash].intercalate (place ++ [last]) = front ++ [point] ∧ point ≠ slash := by
  have hlast : last.IsProper := hproper last (by simp)
  rcases List.eq_nil_or_concat last with rfl | ⟨before, point, rfl⟩
  · exact absurd rfl hlast.ne_nil
  · have hpoint : point ≠ slash := by
      rintro rfl
      exact hlast.slash_notMem (by simp)
    rw [List.concat_eq_append]
    cases place with
    | nil => exact ⟨before, point, by simp, hpoint⟩
    | cons first rest =>
        rw [intercalate_concat (List.cons_ne_nil first rest)]
        exact ⟨[slash].intercalate (first :: rest) ++ slash :: before, point, by simp, hpoint⟩

theorem components_written :
    components ([slash].intercalate (place ++ [last])) = place ++ [last] :=
  components_intercalate (fun part hpart => (hproper part hpart).slash_notMem) (by simp)

end Places

theorem directory_written {place : List Component} {last : Component}
    (hproper : ∀ part ∈ place ++ [last], part.IsProper) :
    directory ([slash].intercalate (place ++ [last])) = [slash].intercalate place := by
  have hlast : ∀ point ∈ last.reverse, (point != slash) = true := by
    intro point hpoint
    have hmem : slash ∉ last := (hproper last (by simp)).slash_notMem
    simp only [bne_iff_ne, ne_eq]
    rintro rfl
    exact hmem (List.mem_reverse.mp hpoint)
  rcases List.eq_nil_or_concat place with rfl | ⟨front, top, rfl⟩
  · have hnone : last.reverse.dropWhile (· != slash) = [] := by
      rw [← List.append_nil last.reverse, List.dropWhile_append_of_pos hlast]
      rfl
    simp [directory, hnone]
  · rw [List.concat_eq_append] at hproper ⊢
    have hfront : ∀ part ∈ front ++ [top], part.IsProper := fun part hpart =>
      hproper part (List.mem_append_left _ hpart)
    rcases exists_intercalate_eq_concat hfront with ⟨before, point, hwritten, hpoint⟩
    rw [intercalate_concat (by simp), hwritten, directory, List.reverse_append,
      List.reverse_cons, List.append_assoc, List.dropWhile_append_of_pos hlast]
    simp [hpoint]

theorem exists_of_isRelative {name : List CodePoint} (h : isRelative name = true) :
    ∃ rest, name = dot :: rest := by
  rw [isRelative, Bool.or_eq_true] at h
  rcases h with h | h <;> rcases List.isPrefixOf_iff_prefix.mp h with ⟨rest, rfl⟩
  · exact ⟨slash :: rest, rfl⟩
  · exact ⟨dot :: slash :: rest, rfl⟩

theorem head?_dropWhile_slash (points : List CodePoint) :
    (points.dropWhile (· == slash)).head? ≠ some slash := by
  have hhead := List.head?_dropWhile_not (· == slash) points
  intro hslash
  rw [hslash] at hhead
  simp at hhead

theorem join_written {place : List Component} {last : Component}
    (hproper : ∀ part ∈ place ++ [last], part.IsProper) (name : List CodePoint) :
    join ([slash].intercalate (place ++ [last])) name =
      [slash].intercalate (place ++ [last]) ++ slash :: name := by
  rcases exists_intercalate_eq_concat hproper with ⟨front, point, hwritten, hpoint⟩
  rw [hwritten, join]
  simp [hpoint]

theorem located_walk (name : List CodePoint) {relativeTo : Option Text}
    (hrel : ∀ base, relativeTo = some base → IsBelow base) :
    (located name relativeTo).head? ≠ some slash ∧
      walk? [] (components (located name relativeTo)) =
        walk? (startPlace name relativeTo) (components (name.dropWhile (· == slash))) := by
  cases relativeTo with
  | none => exact ⟨head?_dropWhile_slash name, rfl⟩
  | some base =>
      rcases hrel base rfl with ⟨place, last, hproper, hpoints⟩
      have hsaid : Text.said (some base) = some base := by
        rcases exists_intercalate_eq_concat hproper with ⟨front, point, hwritten, _⟩
        simp [Text.said, Text.isEmpty, hpoints, hwritten]
      cases hrelative : isRelative name with
      | false =>
          rw [located, startPlace, hsaid, hrelative]
          exact ⟨head?_dropWhile_slash name, rfl⟩
      | true =>
          rcases exists_of_isRelative hrelative with ⟨rest, rfl⟩
          have hname : (dot :: rest).dropWhile (· == slash) = dot :: rest := rfl
          rw [located, startPlace, hsaid, hrelative, hname]
          dsimp only
          rw [if_pos rfl, hpoints, directory_written hproper, components_written hproper,
            List.dropLast_concat]
          rcases List.eq_nil_or_concat place with rfl | ⟨front, top, rfl⟩
          · constructor
            · simp [join, dot, slash]
            · rfl
          · rw [List.concat_eq_append] at hproper ⊢
            have hplace : ∀ part ∈ front ++ [top], part.IsProper := fun part hpart =>
              hproper part (List.mem_append_left _ hpart)
            rw [join_written hplace]
            constructor
            · exact head?_written hplace _
            · rw [components_append, components_written hplace, walk?_append,
                walk?_proper hplace]
              rfl

/-! # Extensions -/

theorem exists_dropWhile_ne_dot (front rest : List CodePoint) :
    ∃ more, (front ++ dot :: rest).dropWhile (· != dot) = dot :: (more ++ rest) := by
  induction front with
  | nil => exact ⟨[], rfl⟩
  | cons point others ih =>
      cases hpoint : point != dot with
      | true => simpa [hpoint] using ih
      | false =>
          have hdot : point = dot := by simpa using hpoint
          exact ⟨others ++ [dot], by simp [hdot]⟩

theorem hasExtension_iff {part : Component} : hasExtension part = true ↔ IsExtended part := by
  constructor
  · intro h
    rcases List.any_eq_true.mp h with ⟨point, hpoint, hne⟩
    cases hdropped : part.reverse.dropWhile (· != dot) with
    | nil => simp [hdropped] at hpoint
    | cons first before =>
        have hfirst : first = dot := by
          have hhead := List.head?_dropWhile_not (· != dot) part.reverse
          rw [hdropped] at hhead
          simpa using hhead
        have hsplit := List.takeWhile_append_dropWhile (p := (· != dot)) (l := part.reverse)
        rw [hdropped, hfirst] at hsplit
        refine ⟨before.reverse, (part.reverse.takeWhile (· != dot)).reverse, ?_, point, ?_, ?_⟩
        · have hreverse := congrArg List.reverse hsplit
          rw [List.reverse_reverse] at hreverse
          exact hreverse.symm.trans (by simp)
        · simpa [hdropped] using hpoint
        · simpa using hne
  · rintro ⟨before, after, rfl, point, hpoint, hne⟩
    rcases exists_dropWhile_ne_dot after.reverse before.reverse with ⟨more, hmore⟩
    rw [hasExtension, List.reverse_append, List.reverse_cons, List.append_assoc,
      List.singleton_append, hmore]
    simp only [List.drop_succ_cons, List.drop_zero, List.any_append, Bool.or_eq_true]
    exact .inr (List.any_eq_true.mpr ⟨point, List.mem_reverse.mpr hpoint, by simpa using hne⟩)

/-! # Resolution -/

def ending (viewsType : Text) (last : Component) : List CodePoint :=
  if hasExtension last then [] else dot :: viewsType.points

theorem resolve_of_walk? (viewsType : Text) {name : Text} {relativeTo : Option Text}
    (hhead : (located (clean name).points relativeTo).head? ≠ some slash)
    {place : List Component} {last : Component}
    (hwalk : walk? [] (components (located (clean name).points relativeTo)) =
      some (place ++ [last])) :
    (∀ part ∈ place ++ [last], part.IsProper) ∧
      resolve viewsType name relativeTo =
        .ok ⟨[slash].intercalate (place ++ [last ++ ending viewsType last])⟩ := by
  have hproper : ∀ part ∈ place ++ [last], part.IsProper :=
    ((foldl_step_of_walk? (by simp) slash_notMem_of_mem_components).1 _ hwalk).1
  have hinside : Normal.isInside ⟨0, place ++ [last]⟩ = true := by
    cases place with
    | nil => simpa [Normal.isInside] using (hproper last (by simp)).ne_parent
    | cons first rest => simpa [Normal.isInside] using (hproper first (by simp)).ne_parent
  refine ⟨hproper, ?_⟩
  rw [resolve, resolve?, normalize_of_walk? hhead hwalk, if_pos hinside,
    intercalate_concat_append, withExtension, ending]
  simp only [List.getLast?_concat, Option.getD_some, Normal.points, List.replicate_zero,
    List.nil_append]
  split <;> simp

section Resolution

variable (viewsType : Text) {name : Text} {relativeTo : Option Text}
  (hrel : ∀ base, relativeTo = some base → IsBelow base)

include hrel

theorem resolve_of_endPlace? {place : List Component} {last : Component}
    (hend : endPlace? name relativeTo = some (place ++ [last])) :
    (∀ part ∈ place ++ [last], part.IsProper) ∧
      resolve viewsType name relativeTo =
        .ok ⟨[slash].intercalate (place ++ [last ++ ending viewsType last])⟩ := by
  rcases located_walk (clean name).points hrel with ⟨hhead, hwalk⟩
  rw [endPlace?, ← hwalk] at hend
  exact resolve_of_walk? viewsType hhead hend

theorem resolve_of_not_below (hend : endPlace? name relativeTo = none ∨
    endPlace? name relativeTo = some []) :
    resolve viewsType name relativeTo = .error (outsideError name) := by
  rcases located_walk (clean name).points hrel with ⟨hhead, hwalk⟩
  have houtside :
      (normalize (located (clean name).points relativeTo)).isInside = false := by
    rcases hend with hend | hend <;> rw [endPlace?, ← hwalk] at hend
    · exact isInside_eq_false_of_walk? hhead hend
    · rw [normalize_of_walk? hhead hend]
      rfl
  rw [resolve, resolve?, houtside]
  rfl

theorem exists_endPlace_of_resolve {path : Text}
    (hpath : resolve viewsType name relativeTo = .ok path) :
    ∃ place last, endPlace? name relativeTo = some (place ++ [last]) ∧
      (∀ part ∈ place ++ [last], part.IsProper) ∧
        path.points = [slash].intercalate (place ++ [last ++ ending viewsType last]) := by
  cases hend : endPlace? name relativeTo with
  | none =>
      rw [resolve_of_not_below viewsType hrel (.inl hend)] at hpath
      cases hpath
  | some found =>
      rcases List.eq_nil_or_concat found with rfl | ⟨place, last, rfl⟩
      · rw [resolve_of_not_below viewsType hrel (.inr hend)] at hpath
        cases hpath
      · rw [List.concat_eq_append] at hend
        rcases resolve_of_endPlace? viewsType hrel hend with ⟨hproper, hresolve⟩
        rw [hresolve] at hpath
        cases hpath
        exact ⟨place, last, by rw [List.concat_eq_append], hproper, rfl⟩

end Resolution

/-! # Results -/

section Results

variable {viewsType : Text}
  (htype : viewsType.points.all (CodePoint.isChar Char.isAlphanum) = true)

include htype

theorem slash_notMem_viewsType : slash ∉ viewsType.points := by
  intro hslash
  exact absurd (List.all_eq_true.mp htype slash hslash) (by decide)

theorem isProper_append_ending {last : Component} (hlast : last.IsProper) :
    Component.IsProper (last ++ ending viewsType last) := by
  unfold ending
  split
  · rwa [List.append_nil]
  · rcases List.exists_cons_of_ne_nil hlast.ne_nil with ⟨point, rest, rfl⟩
    constructor
    · simp
    · simp
    · intro hparent
      cases rest with
      | nil =>
          have hpoint : point = dot := (List.cons.inj hparent).1
          exact hlast.ne_dot (by rw [hpoint])
      | cons next others => simp [parent] at hparent
    · have hlast := hlast.slash_notMem
      have htail := slash_notMem_viewsType htype
      have hdot : slash ≠ dot := by decide
      simp_all

theorem isProper_written {place : List Component} {last : Component}
    (hproper : ∀ part ∈ place ++ [last], part.IsProper) :
    ∀ part ∈ place ++ [last ++ ending viewsType last], part.IsProper := by
  intro part hpart
  rcases List.mem_append.mp hpart with hpart | hpart
  · exact hproper part (List.mem_append_left _ hpart)
  · cases List.mem_singleton.mp hpart
    exact isProper_append_ending htype (hproper last (by simp))

theorem isBelow_of_resolve {name path : Text} {relativeTo : Option Text}
    (hrel : ∀ base, relativeTo = some base → IsBelow base)
    (hpath : resolve viewsType name relativeTo = .ok path) : IsBelow path := by
  rcases exists_endPlace_of_resolve viewsType hrel hpath with
    ⟨place, last, -, hproper, hpoints⟩
  exact ⟨place, last ++ ending viewsType last, isProper_written htype hproper, hpoints⟩

theorem Resolved.isBelow {path : Text} (h : Resolved viewsType path) : IsBelow path := by
  induction h with
  | intro _ hpath ih => exact isBelow_of_resolve htype ih hpath

end Results

/--
A name resolves to the place at which its walk ends. It resolves to nothing if and only if the
walk leads above the root, or ends there.
-/
theorem resolve_walks {viewsType : Text}
    (htype : viewsType.points.all (CodePoint.isChar Char.isAlphanum) = true)
    {relativeTo : Option Text}
    (hrel : ∀ base, relativeTo = some base → Resolved viewsType base) (name : Text) :
    ((∃ e, resolve viewsType name relativeTo = .error e ∧ e.code = "VIEW_NOT_FOUND") ↔
      endPlace? name relativeTo = none ∨ endPlace? name relativeTo = some []) ∧
    (∀ place last, endPlace? name relativeTo = some (place ++ [last]) →
      (IsExtended last →
        resolve viewsType name relativeTo = .ok ⟨[slash].intercalate (place ++ [last])⟩) ∧
      (¬ IsExtended last →
        resolve viewsType name relativeTo =
          .ok ⟨[slash].intercalate (place ++ [last]) ++ dot :: viewsType.points⟩)) ∧
    ∀ path, resolve viewsType name relativeTo = .ok path →
      path.points.head? ≠ some slash ∧
        ∀ part ∈ components path.points, part ≠ [] ∧ part ≠ [dot] ∧ part ≠ parent := by
  have hbelow : ∀ base, relativeTo = some base → IsBelow base := fun base hbase =>
    (hrel base hbase).isBelow htype
  refine ⟨⟨?_, ?_⟩, ?_, ?_⟩
  · rintro ⟨e, he, _⟩
    cases hend : endPlace? name relativeTo with
    | none => exact .inl rfl
    | some found =>
        rcases List.eq_nil_or_concat found with rfl | ⟨place, last, rfl⟩
        · exact .inr rfl
        · rw [List.concat_eq_append] at hend
          rw [(resolve_of_endPlace? viewsType hbelow hend).2] at he
          cases he
  · intro hend
    exact ⟨outsideError name, resolve_of_not_below viewsType hbelow hend, rfl⟩
  · intro place last hend
    rw [(resolve_of_endPlace? viewsType hbelow hend).2, intercalate_concat_append, ending]
    constructor
    · intro hextended
      rw [if_pos (hasExtension_iff.mpr hextended), List.append_nil]
    · intro hbare
      rw [if_neg (fun h => hbare (hasExtension_iff.mp h))]
  · intro path hpath
    rcases isBelow_of_resolve htype hbelow hpath with ⟨place, last, hproper, hpoints⟩
    rw [hpoints, components_written hproper]
    constructor
    · simpa using head?_written hproper []
    · intro part hpart
      exact ⟨(hproper part hpart).ne_nil, (hproper part hpart).ne_dot,
        (hproper part hpart).ne_parent⟩

theorem resolve_walks_sibling :
    Resolved "html" "users/show.html" ∧
      endPlace? " ..\\row/./x/../ " (some "users/show.html") = some [Text.points "row"] ∧
      resolve "html" " ..\\row/./x/../ " (some "users/show.html") = .ok "row.html" := by
  have hbase : Resolved "html" "users/show.html" :=
    @Resolved.intro "html" "users/show.html" "users/show.html" none (by simp) rfl
  have hrel : ∀ base, some (Text.ofString "users/show.html") = some base →
      Resolved "html" base := by
    rintro base ⟨⟩
    exact hbase
  have hend : endPlace? " ..\\row/./x/../ " (some "users/show.html") =
      some ([] ++ [Text.points "row"]) := by
    decide
  have hbare : ¬ IsExtended (Text.points "row") := by
    rw [← hasExtension_iff]
    decide
  refine ⟨hbase, hend, ?_⟩
  rw [((resolve_walks (by decide) hrel _).2.1 _ _ hend).2 hbare]
  rfl

end ViewPath
end Stencil
