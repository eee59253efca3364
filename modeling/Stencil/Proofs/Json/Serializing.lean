import Mathlib
import Stencil.Proofs.Json.Documents

/-!
# Which values have JSON

Everything in a value without cycles has a text but the keys of some mappings. Numbers without a
finite value are written as null where they stand as values, but not where they are keys. And an
indentation step may be asked for by any number but infinity.
-/

namespace Stencil

def Key.isWritable : Key → Bool
  | .undefined => false
  | .callable _ => false
  | _ => true

def Key.isFinite : Key → Bool
  | .float x => x.isFinite
  | _ => true

namespace Store

def HasKey (σ : Store) (v : Value) (key : Key) : Prop :=
  ∃ u entries, σ.Reaches v u ∧ σ.shape u = .map entries ∧ key ∈ entries.keys

variable {σ : Store} {v : Value} {key : Key}

theorem hasKey_iff :
    σ.HasKey v key ↔
      (∃ entries, σ.shape v = .map entries ∧ key ∈ entries.keys) ∨
        ∃ u ∈ σ.inside v, σ.HasKey u key := by
  constructor
  · rintro ⟨u, entries, hreaches, hshape, hkey⟩
    rcases hreaches.cases_head with rfl | ⟨w, hw, hu⟩
    · exact .inl ⟨entries, hshape, hkey⟩
    · exact .inr ⟨w, hw, u, entries, hu, hshape, hkey⟩
  · rintro (⟨entries, hshape, hkey⟩ | ⟨w, hw, u, entries, hu, hshape, hkey⟩)
    · exact ⟨v, entries, .refl, hshape, hkey⟩
    · exact ⟨u, entries, .head hw hu, hshape, hkey⟩

theorem exists_mem_zip_right {α β : Type} {as : List α} {bs : List β}
    (hlength : as.length = bs.length) {b : β} (hb : b ∈ bs) : ∃ a, (a, b) ∈ as.zip bs := by
  rcases exists_mem_zip hlength.symm hb with ⟨a, ha⟩
  refine ⟨a, ?_⟩
  rw [← List.zip_swap, List.mem_map]
  exact ⟨(b, a), ha, rfl⟩

section Texts

variable {style : JsonStyle} {d : Document}

theorem Unfolds.mem_texts (h : σ.Unfolds v d) {x : Except Failure Text}
    (hx : x ∈ Json.texts style d) :
    (∃ t, x = .ok t) ∨ ∃ key, σ.HasKey v key ∧ x = Json.keyText style key := by
  induction h with
  | @list v items ds hv hlength _ ih =>
      rcases Json.mem_textsOfItems.mp hx with ⟨d, hd, hx⟩
      rcases exists_mem_zip_right hlength hd with ⟨u, hu⟩
      refine (ih _ hu hx).imp_right ?_
      rintro ⟨key, hkey, hx⟩
      have hinside : u ∈ σ.inside v := by
        rw [inside, hv]
        exact (List.of_mem_zip hu).1
      exact ⟨key, hasKey_iff.mpr (.inr ⟨u, hinside, hkey⟩), hx⟩
  | @map v entries ds hv hlength hkeys _ ih =>
      rcases Json.mem_textsOfEntries.mp hx with ⟨entry, hentry, hx⟩
      rcases exists_mem_zip_right hlength hentry with ⟨other, hother⟩
      have hmem : other ∈ entries := (List.of_mem_zip hother).1
      rcases hx with rfl | hx
      · refine .inr ⟨entry.1, hasKey_iff.mpr (.inl ⟨entries, hv, ?_⟩), rfl⟩
        rw [← hkeys _ hother]
        exact List.mem_map_of_mem hmem
      · refine (ih _ hother hx).imp_right ?_
        rintro ⟨key, hkey, hx⟩
        have hinside : other.2 ∈ σ.inside v := by
          rw [inside, hv]
          exact List.mem_map_of_mem hmem
        exact ⟨key, hasKey_iff.mpr (.inr ⟨other.2, hinside, hkey⟩), hx⟩
  | @leaf v hv =>
      cases v with
      | float y =>
          rw [leafDocument] at hx
          split at hx
          next hfinite =>
              rw [Json.texts, List.mem_singleton] at hx
              exact .inl ⟨_, hx.trans (if_pos hfinite)⟩
          · cases hx
      | _ => cases hx

theorem Unfolds.keyText_mem (h : σ.Unfolds v d) (hkey : σ.HasKey v key) :
    Json.keyText style key ∈ Json.texts style d := by
  induction h with
  | @list v items ds hv hlength _ ih =>
      rcases hasKey_iff.mp hkey with ⟨entries, hmap, -⟩ | ⟨u, hu, hkey⟩
      · cases hv.symm.trans hmap
      · rw [inside, hv] at hu
        rcases exists_mem_zip hlength hu with ⟨d, hd⟩
        exact Json.mem_textsOfItems.mpr ⟨d, (List.of_mem_zip hd).2, ih _ hd hkey⟩
  | @map v entries ds hv hlength hkeys _ ih =>
      rcases hasKey_iff.mp hkey with ⟨entries', hmap, hown⟩ | ⟨u, hu, hkey⟩
      · cases hv.symm.trans hmap
        rcases List.mem_map.mp hown with ⟨entry, hentry, rfl⟩
        rcases exists_mem_zip hlength hentry with ⟨other, hother⟩
        refine Json.mem_textsOfEntries.mpr ⟨other, (List.of_mem_zip hother).2, .inl ?_⟩
        rw [← hkeys _ hother]
      · rw [inside, hv] at hu
        rcases List.mem_map.mp hu with ⟨entry, hentry, rfl⟩
        rcases exists_mem_zip hlength hentry with ⟨other, hother⟩
        exact Json.mem_textsOfEntries.mpr
          ⟨other, (List.of_mem_zip hother).2, .inr (ih _ hother hkey)⟩
  | leaf hv =>
      rcases hasKey_iff.mp hkey with ⟨entries, hmap, -⟩ | ⟨u, hu, -⟩
      · cases hv.symm.trans hmap
      · rw [inside_of_plain hv] at hu
        cases hu

theorem keyText_cases (hstyle : style.nonFinite = false) (hkey : key.isWritable = true) :
    (key.isFinite = true ∧ ∃ t, Json.keyText style key = .ok t) ∨
      (key.isFinite = false ∧ Json.keyText style key = .error .unwritableNumber) := by
  cases key with
  | float x =>
      cases hfinite : x.isFinite with
      | true =>
          refine .inl ⟨hfinite, x.dataText, ?_⟩
          rw [Json.keyText, Json.floatText, if_pos hfinite]
      | false =>
          refine .inr ⟨hfinite, ?_⟩
          rw [Json.keyText, Json.floatText, hfinite, hstyle]
          rfl
  | undefined => cases hkey
  | callable => cases hkey
  | _ => exact .inl ⟨rfl, _, rfl⟩

theorem Unfolds.text_cases (h : σ.Unfolds v d) (hstyle : style.nonFinite = false)
    (hkeys : ∀ key, σ.HasKey v key → key.isWritable = true) :
    ((∀ key, σ.HasKey v key → key.isFinite = true) → ∃ t, Json.text style d = .ok t) ∧
      ((∃ key, σ.HasKey v key ∧ key.isFinite = false) →
        Json.text style d = .error .unwritableNumber) := by
  have hfailure : ∀ failure, .error failure ∈ Json.texts style d →
      failure = .unwritableNumber ∧ ∃ key, σ.HasKey v key ∧ key.isFinite = false := by
    intro failure hmem
    rcases h.mem_texts hmem with ⟨t, ht⟩ | ⟨key, hkey, htext⟩
    · cases ht
    · rcases keyText_cases hstyle (hkeys key hkey) with ⟨-, t, ht⟩ | ⟨hfinite, herror⟩
      · cases htext.trans ht
      · exact ⟨Except.error.inj (htext.trans herror), key, hkey, hfinite⟩
  rcases Json.reports_text style d with ⟨t, ht, hthere⟩ | ⟨failure, hf, hmem⟩
  · refine ⟨fun _ => ⟨t, ht⟩, ?_⟩
    rintro ⟨key, hkey, hfinite⟩
    rcases hthere _ (h.keyText_mem hkey) with ⟨name, hname⟩
    rcases keyText_cases hstyle (hkeys key hkey) with ⟨hfinite', -⟩ | ⟨-, herror⟩
    · cases hfinite.symm.trans hfinite'
    · cases hname.symm.trans herror
  · rcases hfailure failure hmem with ⟨rfl, key, hkey, hfinite⟩
    exact ⟨fun hall => absurd (hall key hkey) (by simp [hfinite]), fun _ => hf⟩

end Texts

end Store

/-! # Indentation -/

namespace Builtin

theorem nonFinite_styleFor (indent : Option Nat) : (styleFor indent).nonFinite = false := by
  cases indent <;> rfl

end Builtin

/-! # JSON of values -/

namespace Store

variable {σ : Store} {v : Value}

open Builtin

/--
A value without cycles, whose keys are of the kinds that JSON has a form for, has a text at every
indentation, unless one of these keys is a number without a finite value. The helper for it returns
this text whatever stands for the replacer and the indentation step, unless the step is infinity.
-/
theorem json_texts (hstored : σ.IsStored v) (hacyclic : σ.IsAcyclic v)
    (hkeys : ∀ key, σ.HasKey v key → key.isWritable = true) :
    (∃ d, σ.Unfolds v d ∧
        ∀ indent, σ.jsonText (styleFor indent) v = Json.text (styleFor indent) d) ∧
      ((∀ key, σ.HasKey v key → key.isFinite = true) →
        ∀ indent, ∃ t, σ.jsonText (styleFor indent) v = .ok t) ∧
      ((∃ key, σ.HasKey v key ∧ key.isFinite = false) →
        ∀ indent, σ.jsonText (styleFor indent) v = .error .unwritableNumber) ∧
      ∀ replacer space,
        ((v.isUndefined || v.isCallable) = true →
            run σ .stringify [v, replacer, space] = .ok .undefined) ∧
          ((v.isUndefined || v.isCallable) = false → space = .float (.infinity false) →
            run σ .stringify [v, replacer, space] = .error (.arithmetic .tooLarge)) ∧
          ((v.isUndefined || v.isCallable) = false → space ≠ .float (.infinity false) →
            ∃ indent, indentStep space = .ok indent ∧ (∀ step ∈ indent, step ≤ maxIndent) ∧
              run σ .stringify [v, replacer, space] =
                (σ.jsonText (styleFor indent) v).map .str) := by
  rcases document_of_isAcyclic hstored hacyclic with ⟨d, hd, hunfolds⟩
  have htext (indent : Option Nat) : σ.jsonText (styleFor indent) v =
      Json.text (styleFor indent) d := jsonText_of_document hd
  have hcases (indent : Option Nat) := hunfolds.text_cases (nonFinite_styleFor indent) hkeys
  refine ⟨⟨d, hunfolds, htext⟩, ?_, ?_, fun replacer space => ?_⟩
  · intro hall indent
    rw [htext]
    exact (hcases indent).1 hall
  · intro hsome indent
    rw [htext]
    exact (hcases indent).2 hsome
  · have hrun : run σ .stringify [v, replacer, space] = stringifyValue σ v space := rfl
    rw [hrun]
    refine ⟨fun hnone => if_pos hnone, fun hsome hspace => ?_, fun hsome hspace => ?_⟩
    · rw [stringifyValue, hsome, if_neg Bool.false_ne_true, hspace]
      rfl
    · rcases indentStep_cases space with ⟨hinfinite, -⟩ | ⟨-, indent, hindent, hle⟩
      · exact absurd hinfinite hspace
      · exact ⟨indent, hindent, hle, stringifyValue_of_indentStep hsome hindent⟩

theorem json_texts_shared :
    let σ : Store := { Store.ofData [] [] with shared := #[.list [.float (.nan 0), .bool true]] }
    let v : Value := .map [(.str "a", .shared 0), (.int 1, .undefined)]
    σ.IsStored v ∧ σ.IsAcyclic v ∧ (∀ key, σ.HasKey v key → key.isWritable = true) ∧
      (∀ indent, ∃ t, σ.jsonText (styleFor indent) v = .ok t) ∧
      σ.jsonText .compact v = .ok "\x7b\"a\":[null,true],\"1\":null\x7d" := by
  intro σ v
  have hcloses : σ.Closes [v, .shared 0, .undefined, .float (.nan 0), .bool true] := by
    simp [Closes, σ, v, inside, shape]
  have hmem : ∀ u, σ.Reaches v u → u ∈ [v, .shared 0, .undefined, .float (.nan 0), .bool true] :=
    fun u hu => hu.mem_of_closes hcloses List.mem_cons_self
  have hstored : σ.IsStored v := by
    intro p hp
    have hplace := hmem _ hp
    cases p <;> simp [v, Place.value] at hplace
    rw [hplace]
    decide
  have hdocument : σ.document v =
      .ok (.object [(.str "a", .list [.null, .bool true]), (.int 1, .null)]) := rfl
  have hacyclic : σ.IsAcyclic v := (unfolds_of_document hdocument).isAcyclic
  have hkeys : ∀ key, σ.HasKey v key → key = .str "a" ∨ key = .int 1 := by
    rintro key ⟨u, entries, hu, hshape, hkey⟩
    have hown := hmem u hu
    simp only [List.mem_cons, List.not_mem_nil, or_false] at hown
    rcases hown with rfl | rfl | rfl | rfl | rfl <;> cases hshape
    simpa [Entries.keys] using hkey
  have hwritable : ∀ key, σ.HasKey v key → key.isWritable = true := by
    intro key hkey
    rcases hkeys key hkey with rfl | rfl <;> rfl
  refine ⟨hstored, hacyclic, hwritable, (json_texts hstored hacyclic hwritable).2.1 ?_, rfl⟩
  intro key hkey
  rcases hkeys key hkey with rfl | rfl <;> rfl

/-- An infinite indentation step fails, and so does a key that is not a number. -/
theorem json_text_missing :
    let σ := Store.ofData [] []
    let v : Value := .map [(.float (.nan 0), .int 1)]
    σ.IsAcyclic (.list [.int 1]) ∧
      run σ .stringify [.list [.int 1], .null, .float (.infinity false)] =
        .error (.arithmetic .tooLarge) ∧
      σ.IsAcyclic v ∧ σ.jsonText .compact v = .error .unwritableNumber := by
  intro σ v
  have hlist : σ.document (.list [.int 1]) = .ok (.list [.int 1]) := rfl
  have hmap : σ.document v = .ok (.object [(.float (.nan 0), .int 1)]) := rfl
  exact ⟨(unfolds_of_document hlist).isAcyclic, rfl, (unfolds_of_document hmap).isAcyclic, rfl⟩

end Store

end Stencil
