import Mathlib.Data.List.Chain
import Stencil.View.Source

/-!
# Static views and what they expand to

A static view has nothing but literal text and includes without data. What it comes to is
its text with every include replaced by what the included view comes to in turn. That is
what a render of it gives, unless some chain of includes comes back to a view that it has
been through, or gets too deep.
-/

namespace Stencil

/-! # Static views -/

/-- Whether a node is literal text or an include without data. -/
def Node.isStatic : Node → Bool
  | text _ _ => true
  | inclusion _ _ none => true
  | _ => false

def Node.target? (viewsType path : Text) : Node → Option Text
  | inclusion _ name _ => ViewPath.resolve? viewsType name (some path)
  | _ => none

def Node.targets (viewsType path : Text) (nodes : List Node) : List Text :=
  nodes.filterMap (Node.target? viewsType path)

theorem Node.targets_append (viewsType path : Text) (first rest : List Node) :
    Node.targets viewsType path (first ++ rest) =
      Node.targets viewsType path first ++ Node.targets viewsType path rest :=
  List.filterMap_append

theorem Node.targets_inclusion (viewsType path : Text) (line : Nat) (name : Text)
    (data : Option String) :
    Node.targets viewsType path [.inclusion line name data] =
      (ViewPath.resolve? viewsType name (some path)).toList := by
  rw [Node.targets, List.filterMap_cons, Node.target?]
  cases ViewPath.resolve? viewsType name (some path) <;> rfl

def View.isStatic (text : String) : Bool :=
  match View.parse text with
  | .ok nodes => nodes.all Node.isStatic
  | .error _ => false

theorem View.exists_parse_of_isStatic {text : String} (h : View.isStatic text = true) :
    ∃ nodes, View.parse text = .ok nodes ∧ ∀ node ∈ nodes, node.isStatic = true := by
  unfold View.isStatic at h
  split at h
  next nodes hnodes => exact ⟨nodes, hnodes, List.all_eq_true.mp h⟩
  · cases h

namespace MemoryViews

def Includes (views : MemoryViews) (viewsType path target : Text) : Prop :=
  ∃ text nodes, views.text? path = some text ∧ View.parse text = .ok nodes ∧
    target ∈ Node.targets viewsType path nodes

theorem includes_iff {views : MemoryViews} {viewsType path target : Text} {text : String}
    {nodes : List Node} (htext : views.text? path = some text)
    (hparse : View.parse text = .ok nodes) :
    views.Includes viewsType path target ↔ target ∈ Node.targets viewsType path nodes := by
  constructor
  · rintro ⟨_, _, hother, hotherParse, htarget⟩
    cases htext.symm.trans hother
    cases hparse.symm.trans hotherParse
    exact htarget
  · intro htarget
    exact ⟨text, nodes, htext, hparse, htarget⟩

/-! # Expansion -/

/--
What nodes of a view come to, and the paths of all views that are put in on the way, each
before those inside it. An include that leads nowhere comes to nothing.
-/
inductive Expands (views : MemoryViews) (viewsType : Text) :
    Text → List Node → Text → List Text → Prop where
  | nil {path : Text} : Expands views viewsType path [] "" []
  | text {path output : Text} {line : Nat} {text : String} {rest : List Node}
      {paths : List Text} (hrest : Expands views viewsType path rest output paths) :
      Expands views viewsType path (.text line text :: rest) (text ++ output) paths
  | absent {path name output : Text} {line : Nat} {rest : List Node} {paths : List Text}
      (habsent : ∀ target, ViewPath.resolve? viewsType name (some path) = some target →
        views.text? target = none)
      (hrest : Expands views viewsType path rest output paths) :
      Expands views viewsType path (.inclusion line name none :: rest) output paths
  | included {path name target inner output : Text} {line : Nat} {text : String}
      {nodes rest : List Node} {within paths : List Text}
      (htarget : ViewPath.resolve? viewsType name (some path) = some target)
      (htext : views.text? target = some text)
      (hparse : View.parse text = .ok nodes)
      (hinner : Expands views viewsType target nodes inner within)
      (hrest : Expands views viewsType path rest output paths) :
      Expands views viewsType path (.inclusion line name none :: rest) (inner ++ output)
        (target :: within ++ paths)

variable {views : MemoryViews} {viewsType path : Text}

theorem Expands.append {first rest : List Node} {before after : Text} {within paths : List Text}
    (hfirst : views.Expands viewsType path first before within)
    (hrest : views.Expands viewsType path rest after paths) :
    views.Expands viewsType path (first ++ rest) (before ++ after) (within ++ paths) := by
  induction hfirst with
  | nil => exact hrest
  | text _ ih =>
      rw [Text.append_assoc]
      exact .text (ih hrest)
  | absent habsent _ ih => exact .absent habsent (ih hrest)
  | included htarget htext hparse hinner _ _ ih =>
      rw [Text.append_assoc, List.append_assoc]
      exact .included htarget htext hparse hinner (ih hrest)

theorem Expands.unique {nodes : List Node} {output other : Text} {paths others : List Text}
    (h : views.Expands viewsType path nodes output paths)
    (hother : views.Expands viewsType path nodes other others) :
    output = other ∧ paths = others := by
  induction h generalizing other others with
  | nil =>
      cases hother
      exact ⟨rfl, rfl⟩
  | text _ ih =>
      cases hother with
      | text hrest =>
          rcases ih hrest with ⟨rfl, rfl⟩
          exact ⟨rfl, rfl⟩
  | absent habsent _ ih =>
      cases hother with
      | absent _ hrest => exact ih hrest
      | included htarget htext =>
          rw [habsent _ htarget] at htext
          cases htext
  | included htarget htext hparse _ _ ihinner ih =>
      cases hother with
      | absent habsent =>
          rw [habsent _ htarget] at htext
          cases htext
      | included htarget' htext' hparse' hinner hrest =>
          cases htarget.symm.trans htarget'
          cases htext.symm.trans htext'
          cases hparse.symm.trans hparse'
          rcases ihinner hinner with ⟨rfl, rfl⟩
          rcases ih hrest with ⟨rfl, rfl⟩
          exact ⟨rfl, rfl⟩

/-! # Includes without end -/

/--
A row of stored views, each with an include that leads to the next and the last with one
that leads to the end: a view of the row again, or one that lies too deep.
-/
structure Runaway (views : MemoryViews) (viewsType : Text) (most : Nat) (row : List Text)
    (last : Text) : Prop where
  linked : (row ++ [last]).IsChain (views.Includes viewsType)
  stored : ∀ path ∈ row, (views.text? path).isSome
  endless : last ∈ row ∨ most < row.length

/-- Whether an include that leads to a path, at the end of a row of views, leads on to no end. -/
inductive RunsAway (views : MemoryViews) (viewsType : Text) (most : Nat) :
    List Text → Text → Prop where
  | back {row : List Text} {target : Text} (h : target ∈ row ∨ most < row.length) :
      RunsAway views viewsType most row target
  | on {row : List Text} {target next : Text} (hnext : views.Includes viewsType target next)
      (h : RunsAway views viewsType most (row ++ [target]) next) :
      RunsAway views viewsType most row target

theorem isSome_of_isChain {row : List Text} {last : Text}
    (h : (row ++ [last]).IsChain (views.Includes viewsType)) :
    ∀ path ∈ row, (views.text? path).isSome := by
  induction row with
  | nil => simp
  | cons first rest ih =>
      have hfirst : ∃ next, views.Includes viewsType first next := by
        cases rest with
        | nil => exact ⟨last, h.rel⟩
        | cons second _ => exact ⟨second, h.rel⟩
      rcases hfirst with ⟨next, text, nodes, htext, _⟩
      intro path hpath
      rcases List.mem_cons.mp hpath with rfl | hrest
      · rw [htext]
        rfl
      · exact ih h.of_cons path hrest

theorem exists_runsAway {most : Nat} {between : List Text} {last : Text} {row : List Text}
    (hlinked : (path :: (between ++ [last])).IsChain (views.Includes viewsType))
    (hendless : last ∈ row ++ between ∨ most < (row ++ between).length) :
    ∃ target, views.Includes viewsType path target ∧
      views.RunsAway viewsType most row target := by
  induction between generalizing path row with
  | nil =>
      rw [List.append_nil] at hendless
      exact ⟨last, hlinked.rel, .back hendless⟩
  | cons next rest ih =>
      rw [List.append_cons] at hendless
      rcases ih hlinked.of_cons hendless with ⟨target, htarget, haway⟩
      exact ⟨next, hlinked.rel, .on htarget haway⟩

theorem RunsAway.exists_chain {most : Nat} {row : List Text} {target : Text}
    (h : views.RunsAway viewsType most row target) (hpath : views.Includes viewsType path target) :
    ∃ between last, (path :: (between ++ [last])).IsChain (views.Includes viewsType) ∧
      (last ∈ row ++ between ∨ most < (row ++ between).length) := by
  induction h generalizing path with
  | @back row target hendless =>
      refine ⟨[], target, .cons_cons hpath (.singleton target), ?_⟩
      rwa [List.append_nil]
  | @on row target next hnext _ ih =>
      rcases ih hnext with ⟨between, last, hlinked, hendless⟩
      rw [List.append_assoc] at hendless
      exact ⟨target :: between, last, .cons_cons hpath hlinked, hendless⟩

def IsEndless (views : MemoryViews) (viewsType : Text) (most : Nat) (path : Text) : Prop :=
  ∃ between last, views.Runaway viewsType most (path :: between) last

theorem isEndless_iff {most : Nat} {text : String} {nodes : List Node}
    (htext : views.text? path = some text) (hparse : View.parse text = .ok nodes) :
    views.IsEndless viewsType most path ↔
      ∃ target ∈ Node.targets viewsType path nodes,
        views.RunsAway viewsType most [path] target := by
  constructor
  · rintro ⟨between, last, hrunaway⟩
    have haway := @exists_runsAway views viewsType path most between last [path] hrunaway.linked
      hrunaway.endless
    rcases haway with ⟨target, htarget, haway⟩
    exact ⟨target, (includes_iff htext hparse).mp htarget, haway⟩
  · rintro ⟨target, htarget, haway⟩
    rcases haway.exists_chain ((includes_iff htext hparse).mpr htarget) with
      ⟨between, last, hlinked, hendless⟩
    exact ⟨between, last, hlinked, isSome_of_isChain hlinked, hendless⟩

end MemoryViews
end Stencil
