import Mathlib
import Stencil.Proofs.Engine.Running
import Stencil.Proofs.Expression.Naming
import Stencil.Proofs.Sandbox.Noninterference
import Stencil.Proofs.Value.Names
import Stencil.Proofs.View.Embedding

/-!
# Data in the output

What a name stands for is looked up when a view is rendered, long after its text has fallen into
directives. So a text of the data comes out as it is, and nothing in it is read as a directive.
-/

namespace Stencil

open Grammar

/-! # Slots -/

/-- A place in a view where a text of the data stands, and the literal text behind it. -/
structure Slot where
  name : String
  value : Text
  after : String

namespace Slot

def source (first : String) : List Slot → String
  | [] => first
  | slot :: rest => first ++ ("@\x7b" ++ slot.name ++ "\x7d") ++ source slot.after rest

def filled (first : String) : List Slot → Text
  | [] => first
  | slot :: rest => first ++ (slot.value ++ filled slot.after rest)

/-- Whether the data binds the name of a slot to its value, and no directive begins behind it. -/
structure IsBound (entries : Entries Value) (slot : Slot) : Prop where
  isName : isName slot.name.toList = true
  unreserved : slot.name ∉ Helpers.reservedWords
  bound : entries.get? (.str slot.name) = some (.str slot.value)
  literal : '@' ∉ slot.after.toList

end Slot

/-! # Pieces -/

/-- Pieces that are literal text and names of texts among some entries, and what they say. -/
inductive Piece.Say (entries : Entries Value) : List Piece → Text → Prop where
  | nil : Say entries [] ""
  | text {line : Nat} {cs : List Char} {pieces : List Piece} {rest : Text} :
      Say entries pieces rest → Say entries (.text line cs :: pieces) (Text.ofChars cs ++ rest)
  | slot {line : Nat} {source : List Char} {name : String} {value : Text} {pieces : List Piece}
      {rest : Text} :
      Expr.compile name = .ok (.name name) → entries.get? (.str name) = some (.str value) →
      Say entries pieces rest →
      Say entries (.directive line source (.interpolation name) :: pieces) (value ++ rest)

theorem Text.ofChars_cons (c : Char) (cs : List Char) :
    Text.ofChars (c :: cs) = Text.ofChars [c] ++ Text.ofChars cs :=
  rfl

namespace Piece

variable {entries : Entries Value}

theorem Say.pushText {pieces : List Piece} {rest : Text} (h : Say entries pieces rest)
    (line : Nat) (c : Char) :
    Say entries (Piece.pushText line c pieces) (Text.ofChars [c] ++ rest) := by
  cases h with
  | nil => exact .text .nil
  | @text _ cs pieces rest hrest =>
      have hsay : Say entries (.text line (c :: cs) :: pieces) (Text.ofChars (c :: cs) ++ rest) :=
        .text hrest
      rwa [Text.ofChars_cons, Text.append_assoc] at hsay
  | slot hname hbound hrest => exact .text (.slot hname hbound hrest)

theorem Say.literal {w : List Char} (hw : '@' ∉ w) {rest : List Char} {said : Text}
    (h : ∀ line, Say entries (piecesFrom line 0 rest) said) (line : Nat) :
    Say entries (piecesFrom line 0 (w ++ rest)) (Text.ofChars w ++ said) := by
  induction w generalizing line with
  | nil => exact h line
  | cons c others ih =>
      rw [List.mem_cons, not_or] at hw
      have hc : (c == '@') = false := by simpa using Ne.symm hw.1
      rw [List.cons_append, piecesFrom, hc, Text.ofChars_cons, Text.append_assoc]
      exact (ih hw.2 (nextLine line c)).pushText line c

theorem say_source {first : String} (hfirst : '@' ∉ first.toList) {row : List Slot}
    (hrow : ∀ slot ∈ row, slot.IsBound entries) (line : Nat) :
    Say entries (piecesFrom line 0 (Slot.source first row).toList) (Slot.filled first row) := by
  induction row generalizing first line with
  | nil =>
      have hempty : ∀ line, Say entries (piecesFrom line 0 []) "" := fun _ => .nil
      have hsay := Say.literal hfirst hempty line
      rwa [List.append_nil, Text.append_empty] at hsay
  | cons slot rest ih =>
      have hslot := hrow slot (by simp)
      have hrest := @ih slot.after hslot.literal fun other hother => hrow other (by simp [hother])
      have hcompiled := compile_name hslot.isName hslot.unreserved
      have hslots : ∀ line, Say entries
          (piecesFrom line 0 ('@' :: ('\x7b' :: (slot.name.toList ++ ['\x7d']) ++
            (Slot.source slot.after rest).toList)))
          (slot.value ++ Slot.filled slot.after rest) := by
        intro line
        have hread := View.read?_interpolation hcompiled (Slot.source slot.after rest).toList
        rw [strip_name hslot.isName] at hread
        rw [View.piecesFrom_directive (n := slot.name.toList.length + 2) (by simpa using hread)
          (by simp)]
        exact .slot hcompiled hslot.bound (hrest _)
      have hsource : (Slot.source first (slot :: rest)).toList = first.toList ++
          '@' :: ('\x7b' :: (slot.name.toList ++ ['\x7d']) ++
            (Slot.source slot.after rest).toList) := by
        simp [Slot.source]
      rw [hsource]
      exact Say.literal hfirst hslots line

end Piece

/-! # Nodes -/

theorem Rendering.renderAll_cons_ok {host : Host} {enter : Inclusion → Rendering Text}
    {scope : Nat} {node : Node} {rest : List Node} {s mid after : RenderState}
    {first others : Text} (hnode : renderNode host enter scope node s = (.ok first, mid))
    (hrest : renderAll host enter scope rest mid = (.ok others, after)) :
    renderAll host enter scope (node :: rest) s = (.ok (first ++ others), after) := by
  rw [renderAll, bind_def, hnode]
  dsimp only
  rw [bind_def, hrest]
  rfl

theorem Rendering.renderNode_text {host : Host} {enter : Inclusion → Rendering Text}
    {scope line : Nat} {source : String} {value : Text} {s : RenderState}
    (heval : evalSource host scope source s.store = (.ok (.str value), s.store)) :
    renderNode host enter scope (.interpolation line source) s = (.ok value, s) := by
  have htext : textOfSource host scope source s.store = (.ok (some value), s.store) := by
    rw [textOfSource, bind_def, heval]
    rfl
  rw [renderNode, bind_def, textOf, recover, bind_def, onStore, htext]
  rfl

theorem Rendering.renderNode_name {host : Host} {enter : Inclusion → Rendering Text}
    {scope line : Nat} {name : String} {value : Text} {s : RenderState}
    (hcompiled : Expr.compile name = .ok (.name name))
    (hbound : s.store.bound? scope (.str name) = some (.str value)) :
    renderNode host enter scope (.interpolation line name) s = (.ok value, s) := by
  have hlookup : s.store.lookup scope name = .str value := by
    rw [Store.lookup, hbound]
  apply renderNode_text
  rw [evalSource, hcompiled, ← hlookup]
  rfl

theorem Piece.Say.exists_nodes {entries : Entries Value} {pieces : List Piece} {said : Text}
    (h : Piece.Say entries pieces said) :
    ∃ nodes,
      (∀ b : Builder, pieces.foldlM Builder.addPiece b =
        .ok { b with nodes := nodes.reverse ++ b.nodes }) ∧
      ∀ (host : Host) (enter : Inclusion → Rendering Text) (s : RenderState),
        (∀ name : Text, s.store.bound? 0 (.str name) = entries.get? (.str name)) →
          renderAll host enter 0 nodes s = (.ok said, s) := by
  induction h with
  | nil => exact ⟨[], fun b => rfl, fun host enter s _ => rfl⟩
  | @text line cs pieces rest _ ih =>
      rcases ih with ⟨nodes, hbuild, hrender⟩
      refine ⟨.text line (String.ofList cs) :: nodes, fun b => ?_, fun host enter s hs => ?_⟩
      · have hadd : b.addPiece (.text line cs) = .ok (b.push (.text line (String.ofList cs))) := rfl
        rw [View.foldlM_cons_ok hadd, hbuild]
        simp [Builder.push]
      · refine Rendering.renderAll_cons_ok ?_ (hrender host enter s hs)
        rw [renderNode, Text.ofString, String.toList_ofList]
        rfl
  | @slot line source name value pieces rest hcompiled hbound _ ih =>
      rcases ih with ⟨nodes, hbuild, hrender⟩
      refine ⟨.interpolation line name :: nodes, fun b => ?_, fun host enter s hs => ?_⟩
      · have hadd : b.addPiece (.directive line source (.interpolation name)) =
            .ok (b.push (.interpolation line name)) := rfl
        rw [View.foldlM_cons_ok hadd, hbuild]
        simp [Builder.push]
      · exact Rendering.renderAll_cons_ok
          (Rendering.renderNode_name hcompiled ((hs name).trans hbound)) (hrender host enter s hs)

/-! # Renders -/

namespace Engine

/--
Data is never read as directives. A view of literal text and slots whose names the data binds to
texts gives the literal text with those texts in the slots, character by character.
-/
theorem renderSource_verbatim (engine : Engine) (host : Host) (view : Option Text)
    {data : Value} {entries : Entries Value} (hdata : engine.store.entries? data = some entries)
    {first : String} (hfirst : '@' ∉ first.toList) {row : List Slot}
    (hrow : ∀ slot ∈ row, slot.IsBound entries) :
    ∃ rendered,
      (engine.renderSource host (Slot.source first row) view data).1 = .ok rendered ∧
        rendered.output = Slot.filled first row := by
  rcases (Piece.say_source hfirst hrow 1).exists_nodes with ⟨nodes, hbuild, hrender⟩
  have hparse : View.parse (Slot.source first row) = .ok nodes := by
    rw [View.parse_of_pieces rfl (hbuild Builder.empty)]
    simp [Builder.result, Builder.empty]
  have hentries : renderData engine.store data = .ok entries := by
    cases data with
    | null => cases hdata
    | _ => simp only [renderData, hdata]
  rw [renderSource_fst hparse hentries, renderView, hrender]
  · exact ⟨_, rfl, rfl⟩
  · exact fun name => Store.bound?_restart engine.store entries engine.helpers (.str name)

def viewless : Engine where
  settings := .standard
  viewsType := "html"
  shelf := .memory []
  files := ⟨[], []⟩
  cache := none
  helpers := []
  store := .ofData [] []
  journal := []

/-- Directives, braces, quotes and line breaks come out as they are, in data and in literal text. -/
theorem renderSource_verbatim_directives :
    let data : Entries Value :=
      [(.str "a", .str "@\x7bb\x7d@end\n"), (.str "$b", .str "\x7d'@include(\"a\")")]
    ∃ rendered,
      (viewless.renderSource .none "\x7d@\x7ba\x7d\x7d\n@\x7b$b\x7d@\x7ba\x7d'" none
          (.map data)).1 = .ok rendered ∧
        rendered.output =
          Text.ofString "\x7d@\x7bb\x7d@end\n\x7d\n\x7d'@include(\"a\")@\x7bb\x7d@end\n'" := by
  intro data
  let row : List Slot := [⟨"a", "@\x7bb\x7d@end\n", "\x7d\n"⟩,
    ⟨"$b", "\x7d'@include(\"a\")", ""⟩, ⟨"a", "@\x7bb\x7d@end\n", "'"⟩]
  have hbound : data.get? (.str "a") = some (.str "@\x7bb\x7d@end\n") ∧
      data.get? (.str "$b") = some (.str "\x7d'@include(\"a\")") := by
    simp [data, Entries.get?_cons_str, Text.ofString, Text.ofChars]
  have hrow : ∀ slot ∈ row, slot.IsBound data := by
    intro slot hslot
    simp only [row, List.mem_cons, List.not_mem_nil, or_false] at hslot
    rcases hslot with rfl | rfl | rfl
    · exact ⟨by decide, by decide, hbound.1, by decide⟩
    · exact ⟨by decide, by decide, hbound.2, by decide⟩
    · exact ⟨by decide, by decide, hbound.1, by decide⟩
  have hsource : Slot.source "\x7d" row = "\x7d@\x7ba\x7d\x7d\n@\x7b$b\x7d@\x7ba\x7d'" := by
    decide
  have hfilled : Slot.filled "\x7d" row =
      Text.ofString "\x7d@\x7bb\x7d@end\n\x7d\n\x7d'@include(\"a\")@\x7bb\x7d@end\n'" := by
    decide
  have hverbatim :=
    @renderSource_verbatim viewless .none none (.map data) data rfl "\x7d" (by decide) row hrow
  rwa [hsource, hfilled] at hverbatim

end Engine
end Stencil
