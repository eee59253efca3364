import Stencil.Proofs.Renaming.Comparison

/-!
# What is read off renamed values

The texts of renamed values are the same, and so are their lengths and the names of their types.
Their members are renamed. A store that holds more does not need longer for a text: no place is
entered inside itself, so the places that are there bound how deep places are entered.
-/

namespace Stencil

variable {ρ : Renaming}

/-! # Documents -/

namespace Document

mutual

def rename (ρ : Renaming) : Document → Document
  | .list items => .list (renameItems ρ items)
  | .object entries => .object (renameEntries ρ entries)
  | d => d

def renameItems (ρ : Renaming) : List Document → List Document
  | [] => []
  | d :: rest => rename ρ d :: renameItems ρ rest

def renameEntries (ρ : Renaming) : List (Key × Document) → List (Key × Document)
  | [] => []
  | (key, d) :: rest => (key.rename ρ, rename ρ d) :: renameEntries ρ rest

end

end Document

namespace Json

theorem keyText_rename (ρ : Renaming) (style : JsonStyle) (key : Key) :
    keyText style (key.rename ρ) = keyText style key := by
  cases key with
  | float x => cases x <;> rfl
  | _ => rfl

mutual

theorem write_rename (ρ : Renaming) (style : JsonStyle) :
    (depth : Nat) → (d : Document) → write style depth (d.rename ρ) = write style depth d
  | _, .null => rfl
  | _, .bool _ => rfl
  | _, .int _ => rfl
  | _, .float _ => rfl
  | _, .str _ => rfl
  | _, .list [] => rfl
  | depth, .list (first :: rest) => by
      rw [Document.rename, Document.renameItems, write, write, write_rename ρ style _ first,
        writeItems_rename ρ style _ rest]
  | _, .object [] => rfl
  | depth, .object ((key, first) :: rest) => by
      rw [Document.rename, Document.renameEntries, write, write, keyText_rename,
        write_rename ρ style _ first, writeEntries_rename ρ style _ rest]

theorem writeItems_rename (ρ : Renaming) (style : JsonStyle) :
    (depth : Nat) → (items : List Document) →
      writeItems style depth (Document.renameItems ρ items) = writeItems style depth items
  | _, [] => rfl
  | depth, d :: rest => by
      rw [Document.renameItems, writeItems, writeItems, write_rename ρ style _ d,
        writeItems_rename ρ style _ rest]

theorem writeEntries_rename (ρ : Renaming) (style : JsonStyle) :
    (depth : Nat) → (entries : List (Key × Document)) →
      writeEntries style depth (Document.renameEntries ρ entries) =
        writeEntries style depth entries
  | _, [] => rfl
  | depth, (key, d) :: rest => by
      rw [Document.renameEntries, writeEntries, writeEntries, keyText_rename,
        write_rename ρ style _ d, writeEntries_rename ρ style _ rest]

end

end Json

namespace Store

section Documents

variable {e : Extent} {enter enter' : Place → Except Failure Document}

theorem documentItems_renamed {items others : List Value}
    (h : List.Forall₂ (fun v w => documentWith enter' w =
      (documentWith enter v).map (Document.rename ρ)) items others) :
    documentItems enter' others =
      (documentItems enter items).map (Document.renameItems ρ) := by
  induction h with
  | nil => rfl
  | @cons v w rest more hhead _ ih =>
      rw [documentItems, documentItems, hhead, ih]
      cases documentWith enter v with
      | error failure => rfl
      | ok first => cases documentItems enter rest <;> rfl

theorem documentEntries_renamed {entries others : Entries Value}
    (h : List.Forall₂ (fun a b => a.1.Renamed ρ e b.1 ∧ documentWith enter' b.2 =
      (documentWith enter a.2).map (Document.rename ρ)) entries others) :
    documentEntries enter' others =
      (documentEntries enter entries).map (Document.renameEntries ρ) := by
  induction h with
  | nil => rfl
  | @cons entry other rest more hentry _ ih =>
      rcases entry with ⟨key, v⟩
      rcases other with ⟨key', w⟩
      rcases hentry with ⟨⟨_, hkey⟩, hvalue⟩
      simp only at hkey hvalue
      rw [documentEntries, documentEntries, hvalue, ih, hkey]
      cases documentWith enter v with
      | error failure => rfl
      | ok first => cases documentEntries enter rest <;> rfl

theorem documentWith_renamed
    (henter : ∀ p, p.Within e → enter' (p.rename ρ) = (enter p).map (Document.rename ρ))
    {v w : Value} (hv : Value.Renamed ρ e v w) :
    documentWith enter' w = (documentWith enter v).map (Document.rename ρ) := by
  refine Value.Renamed.induction ?constant ?float ?shared ?scope ?list ?map ?host hv
  case constant =>
    intro v hv
    cases v <;> first | rfl | cases hv
  case float =>
    intro x _
    cases x <;> rfl
  case shared =>
    intro place hplace
    rw [documentWith, documentWith]
    exact henter (.shared place) hplace
  case scope =>
    intro place hplace
    rw [documentWith, documentWith]
    exact henter (.scope place) hplace
  case list =>
    intro items others hitems
    rw [documentWith, documentWith, documentItems_renamed (hitems.imp fun _ _ h => h.2)]
    cases documentItems enter items <;> rfl
  case map =>
    intro entries others hentries
    rw [documentWith, documentWith,
      documentEntries_renamed (hentries.imp fun _ _ h => ⟨h.1, h.2.2⟩)]
    cases documentEntries enter entries <;> rfl
  case host =>
    intro id type text attributes others _
    rfl

end Documents

/-! # Entering places -/

def places (σ : Store) : List Place :=
  (List.range σ.shared.size).map .shared ++ (List.range σ.scopes.size).map .scope

theorem mem_places {σ : Store} {p : Place} : p ∈ σ.places ↔ p.Within σ.extent := by
  cases p <;> simp [places, Place.Within, extent]

def unentered (σ : Store) (entered : List Place) : Nat :=
  σ.places.countP fun p => !entered.contains p

theorem unentered_nil (σ : Store) : σ.unentered [] = σ.placeCount := by
  simp [unentered, places, placeCount]

theorem unentered_cons_lt {σ : Store} {entered : List Place} {p : Place}
    (hp : p.Within σ.extent) (hnew : entered.contains p = false) :
    σ.unentered (p :: entered) < σ.unentered entered := by
  refine countP_lt_countP ?_ (mem_places.mpr hp) (by rw [hnew]; rfl) (by simp)
  intro q _ hq
  simp only [List.contains_cons, Bool.not_or, Bool.and_eq_true] at hq
  exact hq.2

section Reading

variable {σ τ : Store} (h : Mirrors ρ σ τ)

include h

theorem Mirrors.documentPlace_eq (left : Nat) :
    ∀ more entered p, p.Within σ.extent → σ.unentered entered < left →
      σ.unentered entered < more →
      τ.documentPlace more (entered.map (Place.rename ρ)) (p.rename ρ) =
        (σ.documentPlace left entered p).map (Document.rename ρ) := by
  induction left with
  | zero =>
      intro more entered p _ hleft
      exact absurd hleft (Nat.not_lt_zero _)
  | succ left ih =>
      intro more entered p hp hleft hmore
      cases more with
      | zero => exact absurd hmore (Nat.not_lt_zero _)
      | succ more =>
          have hcontains : (entered.map (Place.rename ρ)).contains (p.rename ρ) =
              entered.contains p := by
            rw [Bool.eq_iff_iff, List.contains_iff_mem, List.contains_iff_mem, List.mem_map]
            constructor
            · rintro ⟨q, hq, hsame⟩
              rwa [← Place.rename_inj.mp hsame]
            · intro hmem
              exact ⟨p, hmem, rfl⟩
          rw [documentPlace, documentPlace, hcontains]
          cases hentered : entered.contains p with
          | true => rfl
          | false =>
              have hless := unentered_cons_lt hp hentered
              apply documentWith_renamed _ (h.contents hp)
              intro q hq
              rw [← List.map_cons]
              exact ih more (p :: entered) q hq (by omega) (by omega)

theorem Mirrors.document_eq {v w : Value} (hv : Value.Renamed ρ σ.extent v w) :
    τ.document w = (σ.document v).map (Document.rename ρ) := by
  have hcount := h.placeCount_le
  apply documentWith_renamed _ hv
  intro p hp
  exact h.documentPlace_eq _ _ [] p hp (by rw [unentered_nil]; omega)
    (by rw [unentered_nil]; omega)

theorem Mirrors.jsonText_eq (style : JsonStyle) {v w : Value}
    (hv : Value.Renamed ρ σ.extent v w) : τ.jsonText style w = σ.jsonText style v := by
  rw [jsonText, jsonText, h.document_eq hv]
  cases σ.document v with
  | error failure => rfl
  | ok d => exact Json.write_rename ρ style 0 d

theorem Mirrors.outputText_eq {v w : Value} (hv : Value.Renamed ρ σ.extent v w) :
    τ.outputText w = σ.outputText v := by
  have hjson := h.jsonText_eq .compact hv
  cases hv with
  | @constant v hv =>
      cases v with
      | jsonTools => simp only [outputText, hjson]
      | _ => first | rfl | cases hv
  | float => simp [outputText]
  | shared => simp only [outputText, hjson]
  | scope => simp only [outputText, hjson]
  | list => simp only [outputText, hjson]
  | map => simp only [outputText, hjson]
  | host => rfl

theorem Mirrors.shownCallee_eq {v w : Value} (hv : Value.Renamed ρ σ.extent v w) :
    τ.shownCallee w = σ.shownCallee v := by
  rw [shownCallee, shownCallee, h.outputText_eq hv, h.typeName_eq hv]

end Reading
end Store

/-! # Members -/

theorem visibleAttribute_renamed {e : Extent} {attributes others : List (String × Value)}
    (h : List.Forall₂ (fun a b => b.1 = a.1 ∧ Value.Renamed ρ e a.2 b.2) attributes others)
    (name : Text) :
    Value.Renamed ρ e (visibleAttribute attributes name) (visibleAttribute others name) := by
  have hfind : Option.Rel (fun a b => Value.Renamed ρ e a.2 b.2)
      (attributes.find? fun entry => name == entry.1)
      (others.find? fun entry => name == entry.1) := by
    induction h with
    | nil => exact .none
    | @cons a b rest more hentry _ ih =>
        rw [List.find?_cons, List.find?_cons, hentry.1]
        cases name == Text.ofString a.1 with
        | true => exact .some hentry.2
        | false => exact ih
  unfold visibleAttribute
  split
  · exact .constant rfl
  · rcases rel_cases hfind with ⟨ha, hb⟩ | ⟨a, b, ha, hb, hvalue⟩
    · rw [ha, hb]
      exact .constant rfl
    · rw [ha, hb]
      dsimp only
      rw [hvalue.isCallable_eq]
      split
      · exact .constant rfl
      · exact hvalue

theorem elementMember_renamed {e : Extent} {elements others : List Value}
    (helements : List.Forall₂ (Value.Renamed ρ e) elements others) {k k' : Value}
    (hk : Value.Renamed ρ e k k') :
    OutcomeAlike (Value.Renamed ρ e) (elementMember elements k) (elementMember others k') := by
  unfold elementMember
  rw [hk.isText_eq, hk.position?_eq, helements.length_eq]
  split
  · exact .ok (.constant rfl)
  · split
    · exact .error _
    · exact .ok (.constant rfl)
    · rename_i position _
      unfold elementAt
      split
      · exact .ok (.constant rfl)
      · rw [List.getD_eq_getElem?_getD, List.getD_eq_getElem?_getD]
        exact .ok (rel_getD_renamed (forall₂_getElem? helements _) (.constant rfl))

namespace Store

section Member

variable {σ τ : Store} (h : Mirrors ρ σ τ)

include h

theorem Mirrors.member {v w k k' : Value} (hv : Value.Renamed ρ σ.extent v w)
    (hk : Value.Renamed ρ σ.extent k k') :
    OutcomeAlike (Value.Renamed ρ σ.extent) (σ.member v k) (τ.member w k') := by
  have hshape := h.shape hv
  generalize hs : σ.shape v = s at hshape
  generalize ht : τ.shape w = t at hshape
  cases hshape with
  | list hitems =>
      simp only [Store.member, hs, ht]
      exact elementMember_renamed hitems hk
  | map hentries =>
      simp only [Store.member, hs, ht]
      rcases rel_cases hk.key? with ⟨ha, hb⟩ | ⟨key, key', ha, hb, hkey⟩
      · rw [ha, hb]
        exact .ok (.constant rfl)
      · rw [ha, hb]
        exact .ok (rel_getD_renamed (hentries.get? hkey.2) (.constant rfl))
  | plain =>
      rw [member_plain σ hs, member_plain τ ht]
      cases hv with
      | list => cases hs
      | map => cases hs
      | host hlength hnames hget =>
          have hattributes := fun i hi hj => And.intro (hnames i hi hj) (hget i hi hj)
          simp only [hk.text?_eq]
          cases k.text? with
          | none => exact .ok (.constant rfl)
          | some name =>
              exact .ok (visibleAttribute_renamed
                (List.forall₂_iff_get.mpr ⟨hlength, hattributes⟩) name)
      | @constant v hconstant =>
          cases v with
          | str s =>
              refine elementMember_renamed (List.forall₂_same.mpr fun point hpoint => ?_) hk
              rcases List.mem_map.mp hpoint with ⟨p, _, rfl⟩
              exact .constant rfl
          | callable f =>
              simp only [hk.text?_eq]
              cases k.text? with
              | none => exact .ok (.constant rfl)
              | some name =>
                  refine .ok (visibleAttribute_renamed ?_ name)
                  unfold callableAttributes
                  split
                  · exact .cons ⟨rfl, .constant rfl⟩ .nil
                  · exact .nil
          | host => cases hconstant
          | _ => exact .ok (.constant rfl)
      | _ => exact .ok (.constant rfl)

theorem Mirrors.receiverMember {scope : Nat} (hscope : scope < σ.scopes.size) {k k' : Value}
    (hk : Value.Renamed ρ σ.extent k k') :
    OutcomeAlike (Value.Renamed ρ σ.extent) (receiverMember σ scope k)
      (receiverMember τ (ρ.place scope) k') := by
  have hreceiver := h.receiver scope hscope
  have hmember := h.member hreceiver hk
  have hself : ((τ.receiver (ρ.place scope)).place? == some (.scope (ρ.place scope))) =
      ((σ.receiver scope).place? == some (.scope scope)) := by
    have hscopes : Place.scope (ρ.place scope) = (Place.scope scope).rename ρ := rfl
    rw [hreceiver.place?_eq, hscopes, Bool.eq_iff_iff, beq_iff_eq, beq_iff_eq]
    cases (σ.receiver scope).place? <;> simp [Place.rename_inj]
  rw [receiverMember_def, receiverMember_def, hself]
  generalize σ.member (σ.receiver scope) k = found at hmember ⊢
  generalize τ.member (τ.receiver (ρ.place scope)) k' = other at hmember ⊢
  cases hmember with
  | error failure => exact .error failure
  | ok hfound =>
      simp only [hfound.isUndefined_eq, hk.text?_eq]
      split
      · split
        · exact .ok (.constant rfl)
        · exact .ok (h.lookupKey_str hscope _)
      · exact .ok hfound

end Member
end Store
end Stencil
