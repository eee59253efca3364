import Mathlib
import Stencil.Proofs.Json.Writing
import Stencil.Proofs.Renaming.Reading
import Stencil.Proofs.Value.Unfolding

/-!
# Documents of values

The document of a value is made of the documents of what stands in it, wherever that is kept and
however often it is met. The walk that makes it keeps the places that it is in. It fails only on
meeting one of these again, and then the place stands in itself; and what it comes to an end with
has no cycle. So it fails exactly on values with a cycle, and its count of places never decides.
-/

namespace Stencil
namespace Store

/-! # Unfolding -/

def leafDocument : Value → Document
  | .bool b => .bool b
  | .int n => .int n
  | .float x => if x.isFinite then .float x else .null
  | .str s => .str s
  | .callable f => .str f.shown
  | .host _ _ text _ => .str text
  | _ => .null

/-- A document is made of a value: of all that stands in it, at each place where it stands. -/
inductive Unfolds (σ : Store) : Value → Document → Prop where
  | list {v : Value} {items : List Value} {ds : List Document} (hv : σ.shape v = .list items)
      (hlength : items.length = ds.length)
      (h : ∀ pair ∈ items.zip ds, Unfolds σ pair.1 pair.2) : Unfolds σ v (.list ds)
  | map {v : Value} {entries : Entries Value} {ds : Entries Document}
      (hv : σ.shape v = .map entries) (hlength : entries.length = ds.length)
      (hkeys : ∀ pair ∈ entries.zip ds, pair.1.1 = pair.2.1)
      (h : ∀ pair ∈ entries.zip ds, Unfolds σ pair.1.2 pair.2.2) : Unfolds σ v (.object ds)
  | leaf {v : Value} (hv : σ.shape v = .plain) : Unfolds σ v (leafDocument v)

def IsStored (σ : Store) (v : Value) : Prop :=
  ∀ p : Place, σ.Reaches v p.value → p ∈ σ.places

variable {σ : Store} {v : Value}

theorem exists_mem_zip {α β : Type} {as : List α} {bs : List β} (hlength : as.length = bs.length)
    {a : α} (ha : a ∈ as) : ∃ b, (a, b) ∈ as.zip bs := by
  rcases List.mem_iff_getElem.mp ha with ⟨n, hn, rfl⟩
  refine ⟨bs.get ⟨n, hlength ▸ hn⟩, List.mem_iff_getElem.mpr ⟨n, ?_, List.getElem_zip⟩⟩
  rw [List.length_zip]
  omega

theorem Unfolds.isAcyclic {d : Document} (h : σ.Unfolds v d) : σ.IsAcyclic v := by
  induction h with
  | list hv hlength _ ih =>
      refine isAcyclic_of_inside fun u hu => ?_
      rw [inside, hv] at hu
      rcases exists_mem_zip hlength hu with ⟨d, hd⟩
      exact ih _ hd
  | map hv hlength _ _ ih =>
      refine isAcyclic_of_inside fun u hu => ?_
      rw [inside, hv] at hu
      rcases List.mem_map.mp hu with ⟨entry, hentry, rfl⟩
      rcases exists_mem_zip hlength hentry with ⟨d, hd⟩
      exact ih _ hd
  | leaf hv => exact isAcyclic_of_plain hv

theorem eq_of_zip {α β : Type} {as : List α} {bs cs : List β} (hbs : as.length = bs.length)
    (hcs : as.length = cs.length)
    (h : ∀ a b c, (a, b) ∈ as.zip bs → (a, c) ∈ as.zip cs → b = c) : bs = cs := by
  refine List.ext_getElem (hbs.symm.trans hcs) fun n hb hc => ?_
  have ha : n < as.length := hbs ▸ hb
  refine h as[n] _ _ (List.mem_iff_getElem.mpr ⟨n, ?_, List.getElem_zip⟩)
    (List.mem_iff_getElem.mpr ⟨n, ?_, List.getElem_zip⟩)
  · rw [List.length_zip]
    omega
  · rw [List.length_zip]
    omega

theorem Unfolds.unique {d d' : Document} (h : σ.Unfolds v d) (h' : σ.Unfolds v d') : d = d' := by
  induction h generalizing d' with
  | list hv hlength _ ih =>
      cases h' with
      | list hv' hlength' h' =>
          cases hv.symm.trans hv'
          exact congrArg _ (eq_of_zip hlength hlength' fun a b c hb hc => ih _ hb (h' _ hc))
      | map hv' => cases hv.symm.trans hv'
      | leaf hv' => cases hv.symm.trans hv'
  | map hv hlength hkeys _ ih =>
      cases h' with
      | list hv' => cases hv.symm.trans hv'
      | map hv' hlength' hkeys' h' =>
          cases hv.symm.trans hv'
          refine congrArg _ (eq_of_zip hlength hlength' fun a b c hb hc => ?_)
          exact Prod.ext ((hkeys _ hb).symm.trans (hkeys' _ hc)) (ih _ hb (h' _ hc))
      | leaf hv' => cases hv.symm.trans hv'
  | leaf hv =>
      cases h' with
      | list hv' => cases hv.symm.trans hv'
      | map hv' => cases hv.symm.trans hv'
      | leaf => rfl

/-! # Walks over a value -/

section Walk

variable {enter : Place → Except Failure Document}

def Enters (σ : Store) (enter : Place → Except Failure Document) : Prop :=
  ∀ p d, enter p = .ok d → σ.Unfolds p.value d

mutual

theorem unfolds_of_ok (henter : σ.Enters enter) :
    (v : Value) → (d : Document) → documentWith enter v = .ok d → σ.Unfolds v d
  | .list items, d, h => by
      rw [documentWith, bind_eq_ok_iff] at h
      rcases h with ⟨ds, hds, hd⟩
      cases hd
      rcases items_of_ok henter items ds hds with ⟨hlength, hall⟩
      exact .list rfl hlength hall
  | .map entries, d, h => by
      rw [documentWith, bind_eq_ok_iff] at h
      rcases h with ⟨ds, hds, hd⟩
      cases hd
      rcases entries_of_ok henter entries ds hds with ⟨hlength, hkeys, hall⟩
      exact .map rfl hlength hkeys hall
  | .jsonTools, d, h => by
      cases h
      refine .map rfl rfl ?_ ?_
      · simp [Value.jsonToolEntries]
      · simp only [Value.jsonToolEntries, List.zip_cons_cons, List.zip_nil_right,
          List.forall_mem_cons]
        exact ⟨.leaf (v := .callable (.builtin .stringify)) rfl,
          .leaf (v := .callable (.builtin .parse)) rfl, by simp⟩
  | .shared place, d, h => henter (.shared place) d h
  | .scope place, d, h => henter (.scope place) d h
  | .undefined, d, h => by
      cases h
      exact .leaf rfl
  | .null, d, h => by
      cases h
      exact .leaf rfl
  | .bool b, d, h => by
      cases h
      exact .leaf (v := .bool b) rfl
  | .int n, d, h => by
      cases h
      exact .leaf (v := .int n) rfl
  | .float x, d, h => by
      cases h
      exact .leaf (v := .float x) rfl
  | .str s, d, h => by
      cases h
      exact .leaf (v := .str s) rfl
  | .callable f, d, h => by
      cases h
      exact .leaf (v := .callable f) rfl
  | .host id type text attributes, d, h => by
      cases h
      exact .leaf (v := .host id type text attributes) rfl

theorem items_of_ok (henter : σ.Enters enter) :
    (items : List Value) → (ds : List Document) → documentItems enter items = .ok ds →
      items.length = ds.length ∧ ∀ pair ∈ items.zip ds, σ.Unfolds pair.1 pair.2
  | [], ds, h => by
      cases h
      simp
  | v :: rest, ds, h => by
      rw [documentItems, bind_eq_ok_iff] at h
      rcases h with ⟨first, hfirst, h⟩
      rw [bind_eq_ok_iff] at h
      rcases h with ⟨others, hothers, hds⟩
      cases hds
      rcases items_of_ok henter rest others hothers with ⟨hlength, hall⟩
      rw [List.length_cons, List.length_cons, hlength, List.zip_cons_cons, List.forall_mem_cons]
      exact ⟨rfl, unfolds_of_ok henter v first hfirst, hall⟩

theorem entries_of_ok (henter : σ.Enters enter) :
    (entries : List (Key × Value)) → (ds : List (Key × Document)) →
      documentEntries enter entries = .ok ds →
        entries.length = ds.length ∧ (∀ pair ∈ entries.zip ds, pair.1.1 = pair.2.1) ∧
          ∀ pair ∈ entries.zip ds, σ.Unfolds pair.1.2 pair.2.2
  | [], ds, h => by
      cases h
      simp
  | (key, v) :: rest, ds, h => by
      rw [documentEntries, bind_eq_ok_iff] at h
      rcases h with ⟨first, hfirst, h⟩
      rw [bind_eq_ok_iff] at h
      rcases h with ⟨others, hothers, hds⟩
      cases hds
      rcases entries_of_ok henter rest others hothers with ⟨hlength, hkeys, hall⟩
      rw [List.length_cons, List.length_cons, hlength, List.zip_cons_cons, List.forall_mem_cons,
        List.forall_mem_cons]
      exact ⟨rfl, ⟨rfl, hkeys⟩, unfolds_of_ok henter v first hfirst, hall⟩

end

mutual

theorem exists_place_of_error {failure : Failure} :
    (v : Value) → documentWith enter v = .error failure →
      ∃ p : Place, enter p = .error failure ∧ σ.Reaches v p.value
  | .list items, h => by
      rw [documentWith, bind_eq_error_iff] at h
      rcases h with hitems | ⟨_, _, hdone⟩
      · rcases exists_item_of_error items hitems with ⟨u, hu, p, hp, hreaches⟩
        exact ⟨p, hp, .head hu hreaches⟩
      · cases hdone
  | .map entries, h => by
      rw [documentWith, bind_eq_error_iff] at h
      rcases h with hentries | ⟨_, _, hdone⟩
      · rcases exists_entry_of_error entries hentries with ⟨u, hu, p, hp, hreaches⟩
        exact ⟨p, hp, .head hu hreaches⟩
      · cases hdone
  | .jsonTools, h => by cases h
  | .shared place, h => ⟨.shared place, h, .refl⟩
  | .scope place, h => ⟨.scope place, h, .refl⟩
  | .undefined, h => by cases h
  | .null, h => by cases h
  | .bool b, h => by cases h
  | .int n, h => by cases h
  | .float x, h => by cases h
  | .str s, h => by cases h
  | .callable f, h => by cases h
  | .host id type text attributes, h => by cases h

theorem exists_item_of_error {failure : Failure} :
    (items : List Value) → documentItems enter items = .error failure →
      ∃ u ∈ items, ∃ p : Place, enter p = .error failure ∧ σ.Reaches u p.value
  | [], h => by cases h
  | v :: rest, h => by
      rw [documentItems, bind_eq_error_iff] at h
      rcases h with hfirst | ⟨first, _, h⟩
      · exact ⟨v, List.mem_cons_self, exists_place_of_error v hfirst⟩
      · rw [bind_eq_error_iff] at h
        rcases h with hrest | ⟨_, _, hdone⟩
        · rcases exists_item_of_error rest hrest with ⟨u, hu, hplace⟩
          exact ⟨u, List.mem_cons_of_mem _ hu, hplace⟩
        · cases hdone

theorem exists_entry_of_error {failure : Failure} :
    (entries : List (Key × Value)) → documentEntries enter entries = .error failure →
      ∃ u ∈ entries.map (·.2), ∃ p : Place, enter p = .error failure ∧ σ.Reaches u p.value
  | [], h => by cases h
  | (key, v) :: rest, h => by
      rw [documentEntries, bind_eq_error_iff] at h
      rcases h with hfirst | ⟨first, _, h⟩
      · exact ⟨v, List.mem_cons_self, exists_place_of_error v hfirst⟩
      · rw [bind_eq_error_iff] at h
        rcases h with hrest | ⟨_, _, hdone⟩
        · rcases exists_entry_of_error rest hrest with ⟨u, hu, hplace⟩
          exact ⟨u, List.mem_cons_of_mem _ hu, hplace⟩
        · cases hdone

end

end Walk

/-! # Walks through the store -/

section Places

variable {p : Place}

theorem shape_contents (p : Place) : σ.shape (σ.contents p) = σ.shape p.value := by
  cases p with
  | scope place => rfl
  | shared place =>
      dsimp only [contents, Place.value]
      cases σ.shape (.shared place) <;> rfl

theorem unfolds_of_contents {d : Document} (h : σ.Unfolds (σ.contents p) d) :
    σ.Unfolds p.value d := by
  cases h with
  | list hv hlength h => exact .list (shape_contents p ▸ hv) hlength h
  | map hv hlength hkeys h => exact .map (shape_contents p ▸ hv) hlength hkeys h
  | leaf hv =>
      rw [shape_contents] at hv
      cases p with
      | scope place => cases hv
      | shared place =>
          have hcontents : σ.contents (.shared place) = .null := by
            change σ.shape (.shared place) = .plain at hv
            rw [contents, hv]
          rw [hcontents]
          exact .leaf hv

theorem enters_documentPlace (left : Nat) (entered : List Place) :
    σ.Enters (documentPlace σ left entered) := by
  induction left generalizing entered with
  | zero =>
      intro p d h
      cases h
  | succ left ih =>
      intro p d h
      rw [documentPlace] at h
      split at h
      · cases h
      · exact unfolds_of_contents (unfolds_of_ok (ih _) _ _ h)

theorem transGen_of_contents {q : Place} (h : σ.Reaches (σ.contents p) q.value) :
    Relation.TransGen (fun v u => u ∈ σ.inside v) p.value q.value := by
  rcases h.cases_head with heq | ⟨u, hu, hreaches⟩
  · exact absurd heq (σ.contents_ne_value p q)
  · rw [inside_contents] at hu
    exact .head' hu hreaches

theorem circular_of_error {left : Nat} {entered : List Place} {failure : Failure}
    (hstored : σ.IsStored p.value)
    (hentered : ∀ q ∈ entered, Relation.TransGen (fun v u => u ∈ σ.inside v) q.value p.value)
    (hleft : σ.unentered entered < left) (h : documentPlace σ left entered p = .error failure) :
    failure = .circular ∧ ¬ σ.IsAcyclic p.value := by
  induction left generalizing entered p with
  | zero => exact absurd hleft (Nat.not_lt_zero _)
  | succ left ih =>
      rw [documentPlace] at h
      cases hmet : entered.contains p with
      | true =>
          rw [hmet, if_pos rfl] at h
          cases h
          have hcycle := hentered p (List.contains_iff_mem.mp hmet)
          exact ⟨rfl, fun hacyclic => hacyclic p.value .refl hcycle⟩
      | false =>
          rw [hmet, if_neg Bool.false_ne_true] at h
          rcases exists_place_of_error _ h with ⟨q, hq, hreaches⟩
          have hinside := transGen_of_contents hreaches
          have hstored' : σ.IsStored q.value := fun r hr =>
            hstored r (hinside.to_reflTransGen.trans hr)
          have hless := unentered_cons_lt (mem_places.mp (hstored p .refl)) hmet
          have hentered' : ∀ r ∈ p :: entered,
              Relation.TransGen (fun v u => u ∈ σ.inside v) r.value q.value := by
            intro r hr
            rcases List.mem_cons.mp hr with rfl | hr
            · exact hinside
            · exact (hentered r hr).trans hinside
          rcases ih hstored' hentered' (by omega) hq with ⟨hfailure, hcyclic⟩
          refine ⟨hfailure, fun hacyclic => hcyclic fun u hu => ?_⟩
          exact hacyclic u (hinside.to_reflTransGen.trans hu)

end Places

theorem unfolds_of_document {d : Document} (h : σ.document v = .ok d) : σ.Unfolds v d :=
  unfolds_of_ok (enters_documentPlace _ []) v d h

theorem document_cases (hstored : σ.IsStored v) {n : Nat} (hn : σ.placeCount < n) :
    (∃ d, documentWith (documentPlace σ n []) v = .ok d ∧ σ.Unfolds v d ∧ σ.IsAcyclic v) ∨
      (documentWith (documentPlace σ n []) v = .error .circular ∧ ¬ σ.IsAcyclic v) := by
  cases h : documentWith (documentPlace σ n []) v with
  | ok d =>
      have hunfolds := unfolds_of_ok (enters_documentPlace n []) v d h
      exact .inl ⟨d, rfl, hunfolds, hunfolds.isAcyclic⟩
  | error failure =>
      rcases exists_place_of_error v h with ⟨p, hp, hreaches⟩
      have hstored' : σ.IsStored p.value := fun q hq => hstored q (hreaches.trans hq)
      rcases circular_of_error hstored' (by simp) (by rwa [unentered_nil]) hp with
        ⟨rfl, hcyclic⟩
      exact .inr ⟨rfl, fun hacyclic => hcyclic fun u hu => hacyclic u (hreaches.trans hu)⟩

theorem Reaches.mem_of_closes {all : List Value} {u : Value} (h : σ.Reaches v u)
    (hcloses : σ.Closes all) (hv : v ∈ all) : u ∈ all := by
  induction h with
  | refl => exact hv
  | tail _ hstep ih => exact hcloses _ ih _ hstep

theorem isStored_of_closes {all : List Value} (hcloses : σ.Closes all) (hv : v ∈ all)
    (hplaces : ∀ p : Place, p.value ∈ all → p ∈ σ.places) : σ.IsStored v :=
  fun p hp => hplaces p (hp.mem_of_closes hcloses hv)

/-! # Cycles -/

theorem document_of_isAcyclic (hstored : σ.IsStored v) (h : σ.IsAcyclic v) :
    ∃ d, σ.document v = .ok d ∧ σ.Unfolds v d := by
  rcases document_cases hstored (Nat.lt_succ_self _) with ⟨d, hd, hunfolds, -⟩ | ⟨-, hcyclic⟩
  · exact ⟨d, hd, hunfolds⟩
  · exact absurd h hcyclic

theorem jsonText_of_document {style : JsonStyle} {d : Document} (h : σ.document v = .ok d) :
    σ.jsonText style v = Json.text style d := by
  rw [jsonText, h]
  rfl

/--
The JSON of a value fails with the message of a cycle exactly if some value that is reached stands
in itself, whatever count of places the walk is given beyond those of the store. Otherwise the
value is written with all that stands in it, wherever that stands and however often.
-/
theorem cycles_found (hstored : σ.IsStored v) (style : JsonStyle) :
    (∀ n, σ.placeCount < n → documentWith (documentPlace σ n []) v = σ.document v) ∧
      ((∃ failure, σ.jsonText style v = .error failure ∧ failure.kind = "ValueError" ∧
          failure.message = "Circular reference detected") ↔
        ∃ u, σ.Reaches v u ∧ Relation.TransGen (fun v u => u ∈ σ.inside v) u u) ∧
      (σ.IsAcyclic v → ∃ d, σ.Unfolds v d ∧ σ.jsonText style v = Json.text style d) := by
  have hcyclic : ¬ σ.IsAcyclic v ↔
      ∃ u, σ.Reaches v u ∧ Relation.TransGen (fun v u => u ∈ σ.inside v) u u := by
    simp [IsAcyclic]
  refine ⟨fun n hn => ?_, ?_, fun hacyclic => ?_⟩
  · rcases document_cases hstored hn with ⟨d, hd, hunfolds, hacyclic⟩ | ⟨herror, hcycle⟩
    · rcases document_of_isAcyclic hstored hacyclic with ⟨d', hd', hunfolds'⟩
      rw [hd, hd', hunfolds.unique hunfolds']
    · rcases document_cases hstored (Nat.lt_succ_self _) with ⟨_, _, _, hacyclic⟩ | ⟨herror', -⟩
      · exact absurd hacyclic hcycle
      · exact herror.trans herror'.symm
  · rw [← hcyclic]
    constructor
    · rintro ⟨failure, hfailure, -, hmessage⟩ hacyclic
      rcases document_of_isAcyclic hstored hacyclic with ⟨d, hd, -⟩
      rw [jsonText_of_document hd] at hfailure
      have hmem := (Json.reports_text style d).mem_of_error hfailure
      rcases Json.failure_of_mem_texts d hmem with rfl | rfl
      · exact absurd hmessage (by decide)
      · exact absurd hmessage (by decide)
    · intro hcycle
      rcases document_cases hstored (Nat.lt_succ_self _) with ⟨_, _, _, hacyclic⟩ | ⟨herror, -⟩
      · exact absurd hacyclic hcycle
      · refine ⟨.circular, ?_, rfl, rfl⟩
        rw [jsonText, document, herror]
        rfl
  · rcases document_of_isAcyclic hstored hacyclic with ⟨d, hd, hunfolds⟩
    exact ⟨d, hunfolds, jsonText_of_document hd⟩

theorem cycles_found_shared :
    let σ : Store := { Store.ofData [] [] with
      shared := #[.list [.int 1], .map [(.str "a", .list [.shared 1])]] }
    let twice : Value := .list [.shared 0, .shared 0]
    σ.IsStored twice ∧ σ.IsStored (.shared 1) ∧ σ.IsAcyclic twice ∧
      σ.jsonText .compact twice = .ok "[[1],[1]]" ∧
      ∃ failure, σ.jsonText .compact (.shared 1) = .error failure ∧
        failure.kind = "ValueError" ∧ failure.message = "Circular reference detected" := by
  intro σ twice
  have hplaces : ∀ p : Place, p = .shared 0 ∨ p = .shared 1 → p ∈ σ.places := by
    rintro p (rfl | rfl) <;> decide
  have htwice : σ.IsStored twice := by
    have hcloses : σ.Closes [twice, .shared 0, .int 1] := by
      simp [Closes, σ, twice, inside, shape]
    refine isStored_of_closes hcloses List.mem_cons_self fun p hp => ?_
    cases p <;> simp [twice, Place.value] at hp
    exact hplaces _ (.inl (congrArg _ hp))
  have hcircle : σ.IsStored (.shared 1) := by
    have hcloses : σ.Closes [.shared 1, .list [.shared 1]] := by
      simp [Closes, σ, inside, shape]
    refine isStored_of_closes hcloses List.mem_cons_self fun p hp => ?_
    cases p <;> simp [Place.value] at hp
    exact hplaces _ (.inr (congrArg _ hp))
  have hdocument : σ.document twice = .ok (.list [.list [.int 1], .list [.int 1]]) := rfl
  have hunfolds := unfolds_of_document hdocument
  have hcycle : Relation.TransGen (fun v u => u ∈ σ.inside v) (.shared 1) (.shared 1) :=
    .tail (b := .list [.shared 1]) (.single List.mem_cons_self) List.mem_cons_self
  rcases (cycles_found htwice .compact).2.2 hunfolds.isAcyclic with ⟨d, hd, htext⟩
  refine ⟨htwice, hcircle, hunfolds.isAcyclic, ?_,
    (cycles_found hcircle .compact).2.1.mpr ⟨.shared 1, .refl, hcycle⟩⟩
  rw [htext, hd.unique hunfolds]
  rfl

end Store
end Stencil
