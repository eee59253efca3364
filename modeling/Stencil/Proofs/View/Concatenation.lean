import Stencil.Proofs.View.Shifting
import Stencil.Proofs.View.Stability

/-!
# Views one behind the other

Two views with a separator between them make a view. Its nodes are those of the first, a text for
the separator, and those of the second with their lines moved on; texts that have come to stand
side by side are one. Nothing of the first view is left open where the second begins, and no
directive of the first is read further than to the separator.
-/

namespace Stencil

open Grammar

/-! # Fused rows -/

section Rows

variable {α : Type} (fuse? : α → α → Option α)

def fuseFront (a : α) : List α → List α
  | [] => [a]
  | b :: rest =>
      match fuse? a b with
      | some whole => whole :: rest
      | none => a :: b :: rest

def fuseAll (row : List α) : List α :=
  row.foldr (fuseFront fuse?) []

def IsFused (row : List α) : Prop :=
  row.IsChain fun a b => fuse? a b = none

variable {fuse?}

theorem fuseFront_of_head? {a : α} {row : List α} (h : ∀ b ∈ row.head?, fuse? a b = none) :
    fuseFront fuse? a row = a :: row := by
  cases row with
  | nil => rfl
  | cons b rest => simp [fuseFront, h b rfl]

theorem foldr_fuseFront_of_isFused {row more : List α} (h : IsFused fuse? row)
    (hborder : ∀ a ∈ row.getLast?, ∀ b ∈ more.head?, fuse? a b = none) :
    row.foldr (fuseFront fuse?) more = row ++ more := by
  induction row with
  | nil => rfl
  | cons a rest ih =>
      cases rest with
      | nil => exact fuseFront_of_head? (hborder a rfl)
      | cons b others =>
          rcases List.isChain_cons_cons.mp h with ⟨hfirst, hothers⟩
          rw [List.foldr_cons, ih hothers (by simpa using hborder)]
          exact fuseFront_of_head? (by simpa using hfirst)

theorem fuseAll_of_isFused {row : List α} (h : IsFused fuse? row) : fuseAll fuse? row = row := by
  rw [fuseAll, foldr_fuseFront_of_isFused h (by simp), List.append_nil]

theorem forall_mem_fuseAll {p : α → Prop}
    (hfuse : ∀ a b whole, fuse? a b = some whole → p a → p b → p whole) {row : List α}
    (h : ∀ a ∈ row, p a) : ∀ a ∈ fuseAll fuse? row, p a := by
  induction row with
  | nil => simp [fuseAll]
  | cons a rest ih =>
      rw [List.forall_mem_cons] at h
      have hrest := ih h.2
      change ∀ b ∈ fuseFront fuse? a (fuseAll fuse? rest), p b
      cases hrow : fuseAll fuse? rest with
      | nil => simpa [fuseFront] using h.1
      | cons b others =>
          rw [hrow, List.forall_mem_cons] at hrest
          cases hwhole : fuse? a b with
          | none => simpa [fuseFront, hwhole] using ⟨h.1, hrest⟩
          | some whole =>
              simpa [fuseFront, hwhole] using ⟨hfuse a b whole hwhole h.1 hrest.1, hrest.2⟩

end Rows

/-- Two texts side by side are one, on the line of the first. -/
def Node.fuse? : Node → Node → Option Node
  | text n s, text _ t => some (text n (s ++ t))
  | _, _ => none

def Piece.fuse? : Piece → Piece → Option Piece
  | text n s, text _ t => some (text n (s ++ t))
  | _, _ => none

def BlockEvent.fuse? : BlockEvent → BlockEvent → Option BlockEvent
  | leaf n (.text s), leaf _ (.text t) => some (leaf n (.text (s ++ t)))
  | _, _ => none

/-! # Events of fused rows -/

namespace Piece

theorem fuse?_of_isText {piece : Piece} (h : piece.isText = false) (other : Piece) :
    fuse? piece other = none ∧ fuse? other piece = none := by
  cases piece with
  | text n s => cases h
  | _ => exact ⟨rfl, by cases other <;> rfl⟩

theorem fuse?_event? {piece other : Piece} {event found : BlockEvent}
    (hpiece : piece.event? = some event) (hother : other.event? = some found) :
    BlockEvent.fuse? event found = (fuse? piece other).bind event? := by
  cases piece with
  | text n s =>
      cases other with
      | text m t =>
          cases hpiece
          cases hother
          simp [BlockEvent.fuse?, fuse?, event?, String.ofList_append]
      | directive m t meaning =>
          cases hpiece
          cases hother
          cases meaning <;> rfl
      | fault m fault => cases hother
  | directive n s meaning =>
      cases hpiece
      cases meaning <;> rfl
  | fault n fault => cases hpiece

theorem isWellFormed_fuse? {piece other whole : Piece} (h : fuse? piece other = some whole) :
    whole.IsWellFormed := by
  cases piece with
  | text n s =>
      cases other with
      | text m t =>
          cases h
          exact ⟨_, rfl, trivial⟩
      | _ => cases h
  | _ => cases h

theorem isFused_events {pieces : List Piece} (h : ∀ piece ∈ pieces, piece.IsWellFormed)
    (hfused : IsFused fuse? pieces) : IsFused BlockEvent.fuse? (pieces.filterMap event?) := by
  induction pieces with
  | nil => exact .nil
  | cons piece rest ih =>
      rw [List.forall_mem_cons] at h
      rcases h.1 with ⟨event, hevent, -⟩
      rw [List.filterMap_cons_some hevent]
      cases rest with
      | nil => exact .singleton event
      | cons other others =>
          rcases List.isChain_cons_cons.mp hfused with ⟨hfirst, hothers⟩
          have hrest := ih h.2 hothers
          rcases h.2 other List.mem_cons_self with ⟨found, hfound, -⟩
          rw [List.filterMap_cons_some hfound] at hrest ⊢
          refine List.isChain_cons_cons.mpr ⟨?_, hrest⟩
          rw [fuse?_event? hevent hfound, hfirst]
          rfl

theorem filterMap_fuseAll {pieces : List Piece} (h : ∀ piece ∈ pieces, piece.IsWellFormed) :
    (fuseAll fuse? pieces).filterMap event? =
      fuseAll BlockEvent.fuse? (pieces.filterMap event?) := by
  induction pieces with
  | nil => rfl
  | cons piece rest ih =>
      rw [List.forall_mem_cons] at h
      rcases h.1 with ⟨event, hevent, -⟩
      have hrest := ih h.2
      have hwell : ∀ other ∈ fuseAll fuse? rest, other.IsWellFormed :=
        forall_mem_fuseAll (fun _ _ _ hfuse _ _ => isWellFormed_fuse? hfuse) h.2
      rw [List.filterMap_cons_some hevent]
      change (fuseFront fuse? piece (fuseAll fuse? rest)).filterMap event? =
        fuseFront BlockEvent.fuse? event (fuseAll BlockEvent.fuse? (rest.filterMap event?))
      rw [← hrest]
      cases hrow : fuseAll fuse? rest with
      | nil => simp [fuseFront, List.filterMap_cons_some hevent]
      | cons other others =>
          rw [hrow] at hwell
          rcases hwell other List.mem_cons_self with ⟨found, hfound, -⟩
          have hsame := fuse?_event? hevent hfound
          cases hwhole : fuse? piece other with
          | none =>
              rw [hwhole] at hsame
              simp [fuseFront, hwhole, List.filterMap_cons_some hevent,
                List.filterMap_cons_some hfound, hsame]
          | some whole =>
              rcases isWellFormed_fuse? hwhole with ⟨last, hlast, -⟩
              rw [hwhole, Option.bind_some, hlast] at hsame
              simp [fuseFront, hwhole, List.filterMap_cons_some hfound,
                List.filterMap_cons_some hlast, hsame]

end Piece

namespace Node

theorem fuse?_of_isText {node : Node} (h : node.isText = false) (other : Node) :
    fuse? node other = none := by
  cases node with
  | text n s => cases h
  | _ => rfl

theorem fuse?_getLast? {node : Node} (h : node.isText = false) :
    ∀ event ∈ node.events.getLast?, ∀ other, BlockEvent.fuse? event other = none := by
  cases node with
  | text n s => cases h
  | conditional n branches otherwise =>
      intro event hevent other
      rw [events_conditional, ← List.append_assoc, List.getLast?_concat] at hevent
      cases hevent
      rfl
  | loop n item index collection body =>
      intro event hevent other
      rw [events, ← List.cons_append, List.getLast?_concat] at hevent
      cases hevent
      rfl
  | _ =>
      intro event hevent other
      cases hevent
      rfl

theorem fuseFront_text (n : Nat) (s : String) (nodes : List Node) :
    fuseFront BlockEvent.fuse? (.leaf n (.text s)) (eventsAll nodes) =
      eventsAll (fuseFront fuse? (.text n s) nodes) := by
  cases nodes with
  | nil => rfl
  | cons node rest =>
      cases node with
      | conditional m branches otherwise => cases branches <;> rfl
      | _ => simp [fuseFront, fuse?, eventsAll, events, BlockEvent.fuse?]

theorem fuseAll_eventsAll {nodes : List Node}
    (h : ∀ node ∈ nodes, IsFused BlockEvent.fuse? node.events) :
    fuseAll BlockEvent.fuse? (eventsAll nodes) = eventsAll (fuseAll fuse? nodes) := by
  induction nodes with
  | nil => rfl
  | cons node rest ih =>
      rw [List.forall_mem_cons] at h
      rw [eventsAll, fuseAll, List.foldr_append, ← fuseAll, ih h.2]
      change _ = eventsAll (fuseFront fuse? node (fuseAll fuse? rest))
      cases htext : node.isText with
      | true =>
          cases node with
          | text n s => exact fuseFront_text n s _
          | _ => cases htext
      | false =>
          rw [fuseFront_of_head? fun other _ => fuse?_of_isText htext other, eventsAll]
          exact foldr_fuseFront_of_isFused h.1 fun event hevent other _ =>
            fuse?_getLast? htext event hevent other

end Node

/-! # Pieces of a text that goes on -/

section Offsets

variable {text : List Char} {start stop i : Nat}

theorem lineAt_append (h : i ≤ text.length) (more : List Char) :
    lineAt (text ++ more) i = lineAt text i := by
  rw [lineAt, lineAt, List.take_append_of_le_length h]

theorem slice_append_left (h : start ≤ stop) (hstop : stop ≤ text.length) (more : List Char) :
    slice (text ++ more) start stop = slice text start stop := by
  rw [slice, slice, List.drop_append_of_le_length (by omega),
    List.take_append_of_le_length (by rw [List.length_drop]; omega)]

theorem Laid.isFused {pieces : List Piece} (h : Laid text start pieces) :
    IsFused Piece.fuse? pieces := by
  induction h with
  | done => exact .nil
  | @text start stop pieces _ _ _ hhead _ ih =>
      cases pieces with
      | nil => exact .singleton _
      | cons piece rest => exact ih.cons_cons (Piece.fuse?_of_isText (hhead piece rfl) _).2
  | @directive start stop meaning pieces _ _ ih =>
      cases pieces with
      | nil => exact .singleton _
      | cons piece rest => exact ih.cons_cons rfl
  | fault => exact .singleton _

theorem Laid.fuseText {pieces : List Piece} (hahead : start < stop) (hinside : stop ≤ text.length)
    (hliteral : IsLiteral text start stop) (h : Laid text stop pieces) :
    Laid text start (fuseFront Piece.fuse?
      (.text (lineAt text start) (slice text start stop)) pieces) := by
  cases h with
  | done hend => exact .text hahead hinside hliteral (by simp) (.done hend)
  | text hnext hstop hrun hhead hrest =>
      rw [fuseFront]
      dsimp only [Piece.fuse?]
      rw [slice_append (Nat.le_of_lt hahead) (Nat.le_of_lt hnext)]
      exact .text (hahead.trans hnext) hstop (hliteral.append hrun) hhead hrest
  | directive hstands hrest =>
      exact .text hahead hinside hliteral (by simp [Piece.isText]) (.directive hstands hrest)
  | fault hstumbles =>
      exact .text hahead hinside hliteral (by simp [Piece.isText]) (.fault hstumbles)

end Offsets

section Separator

variable {c : Char} (hc : IsSeparator c) {text more : List Char} {start stop i : Nat}

include hc

theorem Stands.continued {meaning : Directive} (h : Stands text start meaning stop) :
    Stands (text ++ c :: more) start meaning stop where
  sign := by
    rw [List.getElem?_append_left (lt_length_of_sign h.sign)]
    exact h.sign
  ahead := h.ahead
  inside := h.inside.trans (by simp)
  read := by
    rw [List.drop_append_of_le_length (lt_length_of_sign h.sign)]
    exact Directive.read?_separator hc more h.read

theorem not_begins_continued (hi : i < text.length) (h : ¬ Begins text i) :
    ¬ Begins (text ++ c :: more) i := by
  intro hbegins
  have hsign := hbegins.sign
  rw [List.getElem?_append_left hi] at hsign
  refine h ⟨hsign, fun hnone => hbegins.read ?_⟩
  rw [List.drop_append_of_le_length hi]
  exact Directive.read?_separator_eq_none hc more hnone

theorem IsLiteral.continued (hstop : stop ≤ text.length) (h : IsLiteral text start stop) :
    IsLiteral (text ++ c :: more) start stop :=
  fun i hstart hi => not_begins_continued hc (Nat.lt_of_lt_of_le hi hstop) (h i hstart hi)

theorem Laid.continued {pieces rest : List Piece} (h : Laid text start pieces)
    (hwell : ∀ piece ∈ pieces, piece.IsWellFormed)
    (hrest : Laid (text ++ c :: more) text.length rest) :
    Laid (text ++ c :: more) start (pieces.foldr (fuseFront Piece.fuse?) rest) := by
  induction h with
  | done hend => exact hend ▸ hrest
  | @text start stop pieces hahead hinside hliteral _ _ ih =>
      have hlater := ih fun piece hpiece => hwell piece (List.mem_cons_of_mem _ hpiece)
      rw [List.foldr_cons, ← lineAt_append (by omega) (c :: more),
        ← slice_append_left (Nat.le_of_lt hahead) hinside (c :: more)]
      exact .fuseText hahead (hinside.trans (by simp)) (hliteral.continued hc hinside) hlater
  | @directive start stop meaning pieces hstands _ ih =>
      have hlater := ih fun piece hpiece => hwell piece (List.mem_cons_of_mem _ hpiece)
      have hahead := hstands.ahead
      have hinside := hstands.inside
      rw [List.foldr_cons, fuseFront_of_head? fun other _ => rfl,
        ← lineAt_append (by omega) (c :: more),
        ← slice_append_left (Nat.le_of_lt hahead) hinside (c :: more)]
      exact .directive (hstands.continued hc) hlater
  | fault =>
      rcases hwell _ List.mem_cons_self with ⟨event, hevent, -⟩
      cases hevent

theorem Piece.ofText_append (hwell : ∀ piece ∈ ofText text, piece.IsWellFormed) :
    ofText (text ++ c :: more) =
      fuseAll fuse? (ofText text ++ .text (1 + text.count '\n') [c] ::
        (ofText more).map (shift ((text ++ [c]).count '\n'))) := by
  have hlaid := Laid.ofText (text ++ c :: more)
  have hmore := (Laid.ofText more).shift (text ++ [c])
  rw [List.append_assoc, List.singleton_append] at hmore
  have hborder : (text ++ [c]).length + 0 = text.length + 1 := by simp
  rw [hborder] at hmore
  have hother : ¬ Begins (text ++ c :: more) text.length := by
    intro hbegins
    have hsign := hbegins.sign
    simp only [List.getElem?_append_right (Nat.le_refl _), Nat.sub_self, List.getElem?_cons_zero,
      Option.some.injEq] at hsign
    exact hc.other (by simp [hsign])
  have hmiddle := Laid.fuseText (Nat.lt_succ_self _) (by simp) (IsLiteral.single hother) hmore
  have hline : lineAt (text ++ c :: more) text.length = 1 + text.count '\n' := by
    rw [lineAt, List.take_left]
  have hslice : slice (text ++ c :: more) text.length (text.length + 1) = [c] := by
    rw [slice_of_drop (List.drop_left ..)]
    rfl
  rw [hline, hslice] at hmiddle
  rw [hlaid.unique ((Laid.ofText text).continued hc hwell hmiddle), fuseAll, List.foldr_append,
    List.foldr_cons, ← fuseAll, fuseAll_of_isFused hmore.isFused]

end Separator

/-! # Nodes of two views -/

namespace Node

def AllBuilt (node : Node) : Prop :=
  ∀ inner ∈ node.walk, inner.IsBuilt

theorem allBuilt_text (n : Nat) (s : String) : (text n s).AllBuilt := by
  intro inner hinner
  cases List.mem_singleton.mp hinner
  trivial

theorem allBuilt_fuse? {node other whole : Node} (h : fuse? node other = some whole) :
    whole.AllBuilt := by
  cases node with
  | text n s =>
      cases other with
      | text m t =>
          cases h
          exact allBuilt_text n _
      | _ => cases h
  | _ => cases h

theorem allBuilt_of_walkAll {nodes : List Node} (h : ∀ node ∈ walkAll nodes, node.IsBuilt) :
    ∀ node ∈ nodes, node.AllBuilt :=
  fun node hnode inner hinner => h inner (mem_walkAll.mpr ⟨node, hnode, hinner⟩)

theorem isFused_events {nodes : List Node} (h : IsFused BlockEvent.fuse? (eventsAll nodes)) :
    ∀ node ∈ nodes, IsFused BlockEvent.fuse? node.events := by
  induction nodes with
  | nil => simp
  | cons node rest ih =>
      rw [eventsAll] at h
      exact List.forall_mem_cons.mpr ⟨h.left_of_append, ih h.right_of_append⟩

end Node

namespace View

section Views

variable {s t : String} {before after : List Node}

theorem isFused_of_parse (h : parse s = .ok before) :
    ∀ node ∈ before, IsFused BlockEvent.fuse? node.events := by
  apply Node.isFused_events
  rw [eventsAll_of_parse h]
  exact Piece.isFused_events (isWellFormed_of_parse h) (Laid.ofText s.toList).isFused

theorem isWellFormed_shift_of_parse (h : parse t = .ok after) (k : Nat) :
    ∀ piece ∈ (Piece.ofText t.toList).map (Piece.shift k), piece.IsWellFormed :=
  List.forall_mem_map.mpr fun piece hpiece =>
    Piece.isWellFormed_shift k (isWellFormed_of_parse h piece hpiece)

theorem allBuilt_shift_of_parse (h : parse t = .ok after) (k : Nat) :
    ∀ node ∈ Node.shiftAll k after, node.AllBuilt := by
  apply Node.allBuilt_of_walkAll
  rw [Node.walkAll_shift]
  exact List.forall_mem_map.mpr fun node hnode =>
    Node.isBuilt_shift k (isBuilt_of_parse h node hnode)

theorem isFused_shift_of_parse (h : parse t = .ok after) (front : List Char) :
    ∀ node ∈ Node.shiftAll (front.count '\n') after, IsFused BlockEvent.fuse? node.events := by
  apply Node.isFused_events
  rw [Node.eventsAll_shift, eventsAll_of_parse h, events, ← Piece.filterMap_event?_shift]
  exact Piece.isFused_events (isWellFormed_shift_of_parse h _)
    ((Laid.ofText t.toList).shift front).isFused

theorem filterMap_event?_of_parse (hs : parse s = .ok before) (ht : parse t = .ok after) (c : Char)
    (n k : Nat) :
    (Piece.ofText s.toList ++ .text n [c] ::
      (Piece.ofText t.toList).map (Piece.shift k)).filterMap Piece.event? =
        Node.eventsAll (before ++ .text n (String.singleton c) :: Node.shiftAll k after) := by
  have hchar : Piece.event? (.text n [c]) = some (.leaf n (.text (String.singleton c))) := by
    rw [Piece.event?, String.singleton_eq_ofList]
  rw [List.filterMap_append, List.filterMap_cons_some hchar, Piece.filterMap_event?_shift,
    Node.eventsAll_append, Node.eventsAll, Node.eventsAll_shift, eventsAll_of_parse hs,
    eventsAll_of_parse ht]
  rfl

/--
Two views with a separator between them make a view: the nodes of the first, the separator as a
text, and the nodes of the second with their lines moved on by the line breaks in front of them.
Texts that come to stand side by side are fused, on the line of the first.
-/
theorem parse_append (hs : parse s = .ok before) (ht : parse t = .ok after) {c : Char}
    (hc : IsSeparator c) :
    parse (s ++ String.singleton c ++ t) =
      .ok (fuseAll Node.fuse? (before ++
        .text (1 + s.toList.count '\n') (String.singleton c) ::
          Node.shiftAll ((s.toList ++ [c]).count '\n') after)) := by
  have htext : (s ++ String.singleton c ++ t).toList = s.toList ++ c :: t.toList := by simp
  have hpieces : Piece.ofText (s.toList ++ c :: t.toList) = _ :=
    Piece.ofText_append hc (isWellFormed_of_parse hs)
  have hrow : ∀ piece ∈ Piece.ofText s.toList ++ .text (1 + s.toList.count '\n') [c] ::
      (Piece.ofText t.toList).map (Piece.shift ((s.toList ++ [c]).count '\n')),
        piece.IsWellFormed :=
    List.forall_mem_append.mpr ⟨isWellFormed_of_parse hs,
      List.forall_mem_cons.mpr ⟨⟨_, rfl, trivial⟩, isWellFormed_shift_of_parse ht _⟩⟩
  apply parse_of_events
  · rw [htext, hpieces]
    exact forall_mem_fuseAll (fun _ _ _ hfuse _ _ => Piece.isWellFormed_fuse? hfuse) hrow
  · rw [events, htext, hpieces, Piece.filterMap_fuseAll hrow, ← Node.fuseAll_eventsAll]
    · rw [filterMap_event?_of_parse hs ht]
    · exact List.forall_mem_append.mpr ⟨isFused_of_parse hs,
        List.forall_mem_cons.mpr ⟨.singleton _, isFused_shift_of_parse ht _⟩⟩
  · have htops : ∀ node ∈ before ++ .text (1 + s.toList.count '\n') (String.singleton c) ::
        Node.shiftAll ((s.toList ++ [c]).count '\n') after, node.AllBuilt :=
      List.forall_mem_append.mpr ⟨Node.allBuilt_of_walkAll (isBuilt_of_parse hs),
        List.forall_mem_cons.mpr ⟨Node.allBuilt_text _ _, allBuilt_shift_of_parse ht _⟩⟩
    intro inner hinner
    rcases Node.mem_walkAll.mp hinner with ⟨node, hnode, hinside⟩
    exact forall_mem_fuseAll (fun _ _ _ hfuse _ _ => Node.allBuilt_fuse? hfuse) htops node hnode
      inner hinside

end Views

theorem parse_append_blocks :
    parse "a\n@if (x)b@end y" =
        .ok [.text 1 "a\n", .conditional 2 [⟨"x", 2, [.text 2 "b"]⟩] none, .text 2 " y"] ∧
      parse "z\n@{k}" = .ok [.text 1 "z\n", .interpolation 2 "k"] ∧ IsSeparator '!' ∧
        parse ("a\n@if (x)b@end y" ++ String.singleton '!' ++ "z\n@{k}") =
          .ok [.text 1 "a\n", .conditional 2 [⟨"x", 2, [.text 2 "b"]⟩] none, .text 2 " y!z\n",
            .interpolation 3 "k"] := by
  have hs : parse "a\n@if (x)b@end y" =
      .ok [.text 1 "a\n", .conditional 2 [⟨"x", 2, [.text 2 "b"]⟩] none, .text 2 " y"] := by
    rfl
  have ht : parse "z\n@{k}" = .ok [.text 1 "z\n", .interpolation 2 "k"] := by
    rfl
  have hc : IsSeparator '!' := ⟨by decide, by decide, by decide⟩
  refine ⟨hs, ht, hc, (parse_append hs ht hc).trans ?_⟩
  rfl

end View
end Stencil
