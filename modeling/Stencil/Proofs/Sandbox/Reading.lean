import Stencil.Proofs.Sandbox.Comparison

/-!
# What is read off alike values

The texts of alike values are the same, and so are their lengths and the names of their
types. Their members are alike: an object gives out nothing but the attributes that
views may see.
-/

namespace Stencil

inductive OutcomeAlike {α β : Type} (R : α → β → Prop) :
    Except Failure α → Except Failure β → Prop where
  | ok {a : α} {b : β} : R a b → OutcomeAlike R (.ok a) (.ok b)
  | error (e : Failure) : OutcomeAlike R (.error e) (.error e)

theorem OutcomeAlike.of_eq {result other : Except Failure Value} (h : result = other) :
    OutcomeAlike Value.Alike result other := by
  rw [h]
  cases other with
  | ok v => exact .ok (.refl v)
  | error e => exact .error e

namespace Store

/-! # Texts -/

theorem documentItems_eq {enter : Place → Except Failure Document} {items others : List Value}
    (h : List.Forall₂ (fun v w => documentWith enter v = documentWith enter w) items others) :
    documentItems enter items = documentItems enter others := by
  induction h with
  | nil => rfl
  | cons hhead _ ih => rw [documentItems, documentItems, hhead, ih]

theorem documentEntries_eq {enter : Place → Except Failure Document}
    {entries others : List (Key × Value)}
    (h : List.Forall₂ (fun a b => a.1 = b.1 ∧ documentWith enter a.2 = documentWith enter b.2)
      entries others) :
    documentEntries enter entries = documentEntries enter others := by
  induction h with
  | nil => rfl
  | @cons entry other _ _ hentry _ ih =>
      rcases entry with ⟨key, v⟩
      rcases other with ⟨key', w⟩
      rcases hentry with ⟨hkey, hvalue⟩
      simp only at hkey hvalue
      rw [documentEntries, documentEntries, hkey, hvalue, ih]

theorem documentWith_eq (enter : Place → Except Failure Document) {v w : Value}
    (hv : Value.Alike v w) :
    documentWith enter v = documentWith enter w := by
  induction hv with
  | atom => rfl
  | list hlength _ ih =>
      rw [documentWith, documentWith,
        documentItems_eq (List.forall₂_iff_get.mpr ⟨hlength, ih⟩)]
  | @map entries others hkeys _ ih =>
      have hlength : (entries.map (·.2)).length = (others.map (·.2)).length := by
        simpa using congrArg List.length hkeys
      have hvalues : List.Forall₂ (fun v w => documentWith enter v = documentWith enter w)
          (entries.map (·.2)) (others.map (·.2)) :=
        List.forall₂_iff_get.mpr ⟨hlength, ih⟩
      rw [documentWith, documentWith, documentEntries_eq (forall₂_labelled hkeys hvalues)]
  | host => rfl

section Reading

variable {σ τ : Store} (h : σ.Alike τ)

include h

theorem documentPlace_eq (left : Nat) (entered : List Place) (p : Place) :
    σ.documentPlace left entered p = τ.documentPlace left entered p := by
  induction left generalizing entered p with
  | zero => rfl
  | succ left ih =>
      have henter : σ.documentPlace left (p :: entered) = τ.documentPlace left (p :: entered) := by
        funext q
        exact ih (p :: entered) q
      rw [documentPlace, documentPlace, henter, documentWith_eq _ (h.contents p)]

theorem Alike.document_eq {v w : Value} (hv : Value.Alike v w) :
    σ.document v = τ.document w := by
  have hcount : σ.placeCount = τ.placeCount := by
    rw [placeCount, placeCount, h.size_eq.1, h.size_eq.2]
  have henter : ∀ left, σ.documentPlace left [] = τ.documentPlace left [] := by
    intro left
    funext p
    exact documentPlace_eq h left [] p
  rw [document, document, hcount, henter, documentWith_eq _ hv]

theorem Alike.jsonText_eq (style : JsonStyle) {v w : Value} (hv : Value.Alike v w) :
    σ.jsonText style v = τ.jsonText style w := by
  rw [jsonText, jsonText, h.document_eq hv]

theorem Alike.outputText_eq {v w : Value} (hv : Value.Alike v w) :
    σ.outputText v = τ.outputText w := by
  have hjson := h.jsonText_eq .compact hv
  cases hv with
  | atom =>
      cases v with
      | jsonTools => simp only [outputText, hjson]
      | shared place => simp only [outputText, hjson]
      | scope place => simp only [outputText, hjson]
      | list items => simp only [outputText, hjson]
      | map entries => simp only [outputText, hjson]
      | _ => rfl
  | list => simp only [outputText, hjson]
  | map => simp only [outputText, hjson]
  | host => rfl

theorem Alike.shownCallee_eq {v w : Value} (hv : Value.Alike v w) :
    σ.shownCallee v = τ.shownCallee w := by
  rw [shownCallee, shownCallee, h.outputText_eq hv, h.typeName_eq hv]

end Reading
end Store

/-! # Members -/

theorem Value.Alike.position?_eq {k k' : Value} (hk : Value.Alike k k') :
    k.position? = k'.position? := by
  cases hk <;> rfl

theorem Value.Alike.isText_eq {k k' : Value} (hk : Value.Alike k k') (s : Text) :
    k.isText s = k'.isText s := by
  cases hk <;> rfl

theorem elementMember_alike {elements others : List Value}
    (helements : List.Forall₂ Value.Alike elements others) {k k' : Value}
    (hk : Value.Alike k k') :
    OutcomeAlike Value.Alike (elementMember elements k) (elementMember others k') := by
  unfold elementMember
  rw [hk.isText_eq, hk.position?_eq, helements.length_eq]
  split
  · exact .ok (.atom rfl)
  · split
    · exact .error _
    · exact .ok (.atom rfl)
    · rename_i position _
      unfold elementAt
      split
      · exact .ok (.atom rfl)
      · rw [List.getD_eq_getElem?_getD, List.getD_eq_getElem?_getD]
        exact .ok (rel_getD (forall₂_getElem? helements _) (.atom rfl))

namespace Store

theorem member_plain (σ : Store) {target : Value} (hshape : σ.shape target = .plain)
    (key : Value) :
    σ.member target key =
      match target with
      | .str s => elementMember (pointValues s) key
      | .host _ _ _ attributes =>
          .ok (match key.text? with
            | some name => visibleAttribute attributes name
            | none => .undefined)
      | .callable f =>
          .ok (match key.text? with
            | some name => visibleAttribute (callableAttributes f) name
            | none => .undefined)
      | _ => .ok .undefined := by
  unfold member
  rw [hshape]
  cases target <;> cases key <;> rfl

theorem receiverMember_def (σ : Store) (scope : Nat) (key : Value) :
    receiverMember σ scope key =
      match σ.member (σ.receiver scope) key with
      | .error e => .error e
      | .ok found =>
          match found.isUndefined, key.text? with
          | true, some name =>
              if (σ.receiver scope).place? == some (.scope scope) then .ok .undefined
              else .ok (σ.lookupKey scope (.str name))
          | _, _ => .ok found := by
  unfold receiverMember
  cases hfound : σ.member (σ.receiver scope) key with
  | error e => simp only [hfound]; rfl
  | ok found => cases found <;> cases key <;> simp only [hfound] <;> rfl

section Member

variable {σ τ : Store} (h : σ.Alike τ)

include h

theorem Alike.member {v w k k' : Value} (hv : Value.Alike v w) (hk : Value.Alike k k') :
    OutcomeAlike Value.Alike (σ.member v k) (τ.member w k') := by
  have hshape := h.shape hv
  generalize hs : σ.shape v = s at hshape
  generalize ht : τ.shape w = t at hshape
  cases hshape with
  | list hitems =>
      simp only [Store.member, hs, ht]
      exact elementMember_alike hitems hk
  | map hentries =>
      simp only [Store.member, hs, ht]
      rw [hk.key?_eq]
      cases k'.key? with
      | some key => exact .ok (rel_getD (hentries.get? key) (.atom rfl))
      | none => exact .ok (.atom rfl)
  | plain =>
      rw [member_plain σ hs, member_plain τ ht]
      cases hv with
      | list => cases hs
      | map => cases hs
      | host hnames hvalues =>
          simp only [hk.text?_eq]
          cases k'.text? with
          | some name => exact .ok (Value.visibleAttribute_alike hnames hvalues name)
          | none => exact .ok (.atom rfl)
      | atom =>
          cases v with
          | str s => exact elementMember_alike (List.forall₂_same.mpr fun v _ => .refl v) hk
          | callable f =>
              simp only [hk.text?_eq]
              exact .ok (.refl _)
          | host id type text attributes =>
              simp only [hk.text?_eq]
              exact .ok (.refl _)
          | _ => exact .ok (.atom rfl)

theorem Alike.receiverMember (scope : Nat) {k k' : Value} (hk : Value.Alike k k') :
    OutcomeAlike Value.Alike (receiverMember σ scope k) (receiverMember τ scope k') := by
  have hmember := h.member (h.receiver scope) hk
  rw [receiverMember_def, receiverMember_def, (h.receiver scope).place?_eq]
  generalize σ.member (σ.receiver scope) k = found at hmember ⊢
  generalize τ.member (τ.receiver scope) k' = other at hmember ⊢
  cases hmember with
  | error e => exact .error e
  | ok hfound =>
      simp only [hfound.isUndefined_eq, hk.text?_eq]
      split
      · split
        · exact .ok (.atom rfl)
        · exact .ok (h.lookupKey scope _)
      · exact .ok hfound

end Member
end Store
end Stencil
