import Mathlib
import Stencil.Proofs.Renaming.Values
import Stencil.Proofs.Value.Unfolding

/-!
# Symmetry of equality

Values that are compared the other way round come out the same, if one of them has no cycle. Of
mappings only one is walked: that its keys all find theirs in the other says that the other's find
theirs in it, since there are as many. What is strictly equal is loosely equal.
-/

namespace Stencil

/-! # Mappings that match -/

namespace Entries

variable {α β : Type}

theorem get?_of_mem {entries : Entries α} (h : entries.Distinct) {entry : Key × α}
    (hentry : entry ∈ entries) {key : Key} (hsame : entry.1.same key = true) :
    entries.get? key = some entry.2 := by
  induction entries with
  | nil => cases hentry
  | cons first rest ih =>
      rcases List.pairwise_cons.mp h with ⟨hfirst, hrest⟩
      rw [get?_cons]
      rcases List.mem_cons.mp hentry with rfl | hentry
      · rw [hsame, if_pos rfl]
      · have hdiffers : first.1.same key = false := by
          rw [Bool.eq_false_iff]
          intro hother
          cases (hfirst entry hentry).symm.trans (Key.same_trans hother (Key.same_symm hsame))
        rw [hdiffers, if_neg Bool.false_ne_true, ih hrest hentry]

theorem mem_of_get? {entries : Entries α} {key : Key} {value : α}
    (h : entries.get? key = some value) :
    ∃ entry ∈ entries, entry.1.same key = true ∧ entry.2 = value := by
  rcases Option.map_eq_some_iff.mp h with ⟨entry, hfound, rfl⟩
  have hsame : entry.1.same key = true := by
    simpa using List.find?_some hfound
  exact ⟨entry, List.mem_of_find?_eq_some hfound, hsame, rfl⟩

theorem exists_partners [Nonempty (Key × β)] {entries : Entries α} {others : Entries β}
    (hdistinct : entries.Distinct) {R : α → β → Prop}
    (h : ∀ entry ∈ entries, ∃ b, others.get? entry.1 = some b ∧ R entry.2 b) :
    ∃ partner : Key × α → Key × β, (entries.map partner).Subperm others ∧
      ∀ entry ∈ entries, (partner entry).1.same entry.1 = true ∧ R entry.2 (partner entry).2 := by
  have hfound : ∀ entry ∈ entries, ∃ found ∈ others,
      found.1.same entry.1 = true ∧ R entry.2 found.2 := by
    intro entry hentry
    rcases h entry hentry with ⟨b, hb, hR⟩
    rcases mem_of_get? hb with ⟨found, hmem, hsame, rfl⟩
    exact ⟨found, hmem, hsame, hR⟩
  choose! partner hmem hsame hR using hfound
  have hnodup : (entries.map partner).Nodup := by
    refine List.pairwise_map.mpr (hdistinct.imp_of_mem ?_)
    intro a b ha hb hdiffers hpartner
    have hback := Key.same_symm (hsame a ha)
    rw [hpartner] at hback
    cases hdiffers.symm.trans (Key.same_trans hback (hsame b hb))
  have hsubset : entries.map partner ⊆ others := by
    intro found hfound
    rcases List.mem_map.mp hfound with ⟨entry, hentry, rfl⟩
    exact hmem entry hentry
  exact ⟨partner, List.subperm_of_subset hnodup hsubset,
    fun entry hentry => ⟨hsame entry hentry, hR entry hentry⟩⟩

/--
Where as many distinct keys are on one side as on the other, and those of one side find theirs on
the other, those of the other find theirs as well: no two find the same.
-/
theorem match_back {entries : Entries α} {others : Entries β} (hdistinct : entries.Distinct)
    (hlength : entries.length = others.length) {R : α → β → Prop}
    (h : ∀ entry ∈ entries, ∃ b, others.get? entry.1 = some b ∧ R entry.2 b) :
    ∀ other ∈ others, ∃ a, entries.get? other.1 = some a ∧ R a other.2 := by
  intro other hother
  have : Nonempty (Key × β) := ⟨other⟩
  rcases exists_partners hdistinct h with ⟨partner, hsubperm, hpartner⟩
  have hperm : (entries.map partner).Perm others :=
    hsubperm.perm_of_length_le (by rw [List.length_map, hlength])
  rcases List.mem_map.mp (hperm.mem_iff.mpr hother) with ⟨entry, hentry, rfl⟩
  rcases hpartner entry hentry with ⟨hsame, hR⟩
  exact ⟨entry.2, get?_of_mem hdistinct hentry (Key.same_symm hsame), hR⟩

end Entries

/-! # Equality of parts -/

theorem Number.equal_comm (x y : Number) : x.equal y = y.equal x := by
  rw [Bool.eq_iff_iff, Number.equal_iff, Number.equal_iff]
  exact ⟨fun ⟨l, hy, hx⟩ => ⟨l, hx, hy⟩, fun ⟨l, hx, hy⟩ => ⟨l, hy, hx⟩⟩

namespace Value

theorem identical_comm (v w : Value) : v.identical w = w.identical v := by
  rw [identical_def, identical_def]
  cases v.mark? <;> cases w.mark? <;> cases v.place? <;> cases w.place? <;>
    first | rfl | exact Bool.beq_comm

theorem plainEqual_comm (v w : Value) : v.plainEqual w = w.plainEqual v := by
  have hemblem : (v.emblem?.isSome && v.emblem? == w.emblem?) =
      (w.emblem?.isSome && w.emblem? == v.emblem?) := by
    cases v.emblem? <;> cases w.emblem? <;> first | rfl | exact Bool.beq_comm
  rw [plainEqual_def, plainEqual_def, hemblem]
  cases v.number? <;> cases w.number? <;> first | rfl | exact Number.equal_comm _ _

theorem number?_or_text? (v : Value) : v.number? = none ∨ v.text? = none := by
  cases v <;> first | exact .inl rfl | exact .inr rfl

theorem isNullish_of_isUndefined {v : Value} (h : v.isUndefined = true) : v.isNullish = true := by
  cases v <;> first | rfl | cases h

end Value

/-! # Equality of values -/

namespace Store

variable {σ : Store} {v w : Value}

theorem IsKept.placeless (h : σ.IsKept v) (hshape : σ.shape v = .plain) : v.place? = none := by
  cases v with
  | shared place =>
      have hstored := h.stored place .refl
      rw [shape, Array.getElem?_eq_getElem hstored] at hshape
      cases hcontainer : σ.shared[place] <;> simp [hcontainer] at hshape
  | scope => cases hshape
  | _ => rfl

theorem all_zip_comm {f : Value → Value → Bool} (items others : List Value) :
    ((items.zip others).all fun pair => pair.1.identical pair.2 || f pair.1 pair.2) =
      (others.zip items).all fun pair => pair.1.identical pair.2 || f pair.2 pair.1 := by
  rw [← List.zip_swap, List.all_map]
  congr 1
  funext pair
  simp [Value.identical_comm]

theorem all_get?_comm {f : Value → Value → Bool} {entries others : Entries Value}
    (hentries : entries.Distinct) (hothers : others.Distinct)
    (hlength : entries.length = others.length) :
    (entries.all fun entry =>
        (others.get? entry.1).any fun b => entry.2.identical b || f entry.2 b) =
      others.all fun other =>
        (entries.get? other.1).any fun a => other.2.identical a || f a other.2 := by
  rw [Bool.eq_iff_iff, List.all_eq_true, List.all_eq_true]
  simp only [Option.any_eq_true]
  constructor
  · intro h
    refine Entries.match_back hentries hlength
      (R := fun a b => (b.identical a || f a b) = true) fun entry hentry => ?_
    simpa only [Value.identical_comm] using h entry hentry
  · intro h
    exact Entries.match_back hothers hlength.symm
      (R := fun b a => (a.identical b || f a b) = true) fun other hother => by
        simpa only [Value.identical_comm] using h other hother

section Sides

variable {f : Value → Value → Bool}

def DecidedBothWays (σ : Store) (f : Value → Value → Bool) (left right : List Value) : Prop :=
  ∀ a ∈ left, ∀ b ∈ right, σ.equal a b = .ok (f a b) ∧ σ.equal b a = .ok (f a b)

theorem equal_comm_of_list {items others : List Value} (hv : σ.shape v = .list items)
    (hw : σ.shape w = .list others) (h : σ.DecidedBothWays f items others) :
    ∃ b, σ.equal v w = .ok b ∧ σ.equal w v = .ok b := by
  have hforth := equal_of_list hv hw fun a ha b hb => (h a ha b hb).1
  have hback := equal_of_list (f := fun b a => f a b) hw hv fun b hb a ha => (h a ha b hb).2
  rw [Bool.beq_comm, ← all_zip_comm] at hback
  exact ⟨_, hforth, hback⟩

theorem equal_comm_of_map {entries others : Entries Value} (hv : σ.shape v = .map entries)
    (hw : σ.shape w = .map others) (hentries : entries.Distinct) (hothers : others.Distinct)
    (h : σ.DecidedBothWays f (entries.map (·.2)) (others.map (·.2))) :
    ∃ b, σ.equal v w = .ok b ∧ σ.equal w v = .ok b := by
  have hforth := equal_of_map hv hw fun a ha b hb => (h a ha b hb).1
  have hback := equal_of_map (f := fun b a => f a b) hw hv fun b hb a ha => (h a ha b hb).2
  rw [Bool.beq_comm] at hback
  by_cases hlength : entries.length = others.length
  · rw [← all_get?_comm hentries hothers hlength] at hback
    exact ⟨_, hforth, hback⟩
  · have hdiffers : (entries.length == others.length) = false := by
      simpa using hlength
    rw [hdiffers] at hforth hback
    exact ⟨false, hforth, hback⟩

end Sides

theorem equal_comm (hacyclic : σ.IsAcyclic v) (hv : σ.IsKept v) (hw : σ.IsKept w) :
    ∃ b, σ.equal v w = .ok b ∧ σ.equal w v = .ok b := by
  have hacc := isAcyclic_iff_acc.mp hacyclic
  clear hacyclic
  induction hacc generalizing w with
  | intro v _ ih =>
      by_cases hkind : (σ.shape v).SameKind (σ.shape w)
      · have hparts : σ.DecidedBothWays (fun a b => (σ.equal a b).toOption.getD false)
            (σ.inside v) (σ.inside w) := by
          intro a ha b hb
          rcases ih a ha (hv.of_inside ha) (hw.of_inside hb) with ⟨c, hab, hba⟩
          have hverdict : (σ.equal a b).toOption.getD false = c := by
            rw [hab]
            rfl
          dsimp only
          rw [hverdict]
          exact ⟨hab, hba⟩
        rw [inside, inside] at hparts
        cases hshape : σ.shape v <;> cases hother : σ.shape w <;>
          rw [hshape, hother] at hkind hparts
        case list.list => exact equal_comm_of_list hshape hother hparts
        case map.map =>
          exact equal_comm_of_map hshape hother (hv.distinct v _ .refl hshape)
            (hw.distinct w _ .refl hother) hparts
        case plain.plain =>
          have hback := equal_of_plain hother (hw.placeless hother) v
          rw [Value.plainEqual_comm] at hback
          exact ⟨_, equal_of_plain hshape (hv.placeless hshape) w, hback⟩
        all_goals exact hkind.elim
      · exact ⟨false, equal_of_unlike hv.placeless hkind,
          equal_of_unlike hw.placeless fun h => hkind h.symm⟩

/-! # The equality operators -/

theorem looseEqual_comm (h : σ.equal v w = σ.equal w v) :
    σ.looseEqual v w = σ.looseEqual w v := by
  rw [looseEqual_def, looseEqual_def, Bool.or_comm, Bool.and_comm, h]
  congr 1
  rcases v.number?_or_text? with hv | hv <;> rcases w.number?_or_text? with hw | hw <;>
    rw [hv, hw]
  · cases v.text? <;> cases w.text? <;> rfl
  · cases v.text? <;> cases w.number? <;> rfl
  · cases v.number? <;> cases w.text? <;> rfl
  · cases v.number? <;> cases w.number? <;> rfl

theorem strictEqual_comm (h : σ.equal v w = σ.equal w v) :
    σ.strictEqual v w = σ.strictEqual w v := by
  rw [strictEqual_def, strictEqual_def, h, bne_comm, bne_comm (a := v.number?.isSome)]
  cases hv : v.isUndefined with
  | true =>
      cases w.isUndefined <;> rfl
  | false =>
      cases w.isUndefined with
      | true => rfl
      | false => cases v.isNullish <;> cases w.isNullish <;> rfl

theorem strictEqual_true_cases (h : σ.strictEqual v w = .ok true) :
    v.isNullish = true ∧ w.isNullish = true ∨
      v.isNullish = false ∧ w.isNullish = false ∧ v.isBool = w.isBool ∧
        v.number?.isSome = w.number?.isSome ∧ σ.equal v w = .ok true := by
  rw [strictEqual_def] at h
  split_ifs at h with hv hw hnullish hnullish' hbool hnumber
  · exact .inl ⟨Value.isNullish_of_isUndefined hv, Value.isNullish_of_isUndefined (Except.ok.inj h)⟩
  · cases h
  · exact .inl ⟨hnullish, Except.ok.inj h⟩
  · cases h
  · cases h
  · cases h
  · refine .inr ⟨?_, ?_, ?_, ?_, h⟩
    · simpa using hnullish
    · simpa using hnullish'
    · simpa using hbool
    · simpa using hnumber

theorem looseEqual_of_strictEqual (h : σ.strictEqual v w = .ok true) :
    σ.looseEqual v w = .ok true := by
  rw [looseEqual_def]
  rcases strictEqual_true_cases h with ⟨hv, hw⟩ | ⟨hv, hw, -, hnumber, hequal⟩
  · rw [hv, hw]
    rfl
  · rw [hv, hw, Bool.or_self, if_neg Bool.false_ne_true]
    -- A number on one side has a number on the other, so that no text meets it.
    cases hx : v.number? with
    | none =>
        have hy : w.number? = none := by
          rw [hx] at hnumber
          simpa using hnumber.symm
        rw [hy]
        cases v.text? <;> exact hequal
    | some x =>
        have hy : w.number? ≠ none := by
          intro hy
          simp [hx, hy] at hnumber
        have htext : v.text? = none := v.number?_or_text?.resolve_left (by simp [hx])
        have htext' : w.text? = none := w.number?_or_text?.resolve_left hy
        rw [htext, htext']
        exact hequal

/--
Both equalities come out the same from either side, whether they answer or fail, and what is
strictly equal is loosely equal. It is enough that there is no cycle in one of the values.
-/
theorem equalities_symmetric (hacyclic : σ.IsAcyclic v) (hv : σ.IsKept v) (hw : σ.IsKept w) :
    σ.looseEqual v w = σ.looseEqual w v ∧ σ.strictEqual v w = σ.strictEqual w v ∧
      (σ.strictEqual v w = .ok true → σ.looseEqual v w = .ok true) := by
  rcases equal_comm hacyclic hv hw with ⟨b, hforth, hback⟩
  have hequal := hforth.trans hback.symm
  exact ⟨looseEqual_comm hequal, strictEqual_comm hequal, looseEqual_of_strictEqual⟩

theorem equalities_symmetric_shared :
    let σ : Store := { Store.ofData [] [] with shared := #[.list [.int 1]] }
    let v : Value := .map [(.str "a", .shared 0), (.str "b", .null)]
    let w : Value := .map [(.str "b", .null), (.str "a", .list [.bool true])]
    σ.IsAcyclic v ∧ σ.IsKept v ∧ σ.IsKept w ∧ σ.looseEqual v w = σ.looseEqual w v ∧
      σ.strictEqual v w = σ.strictEqual w v ∧ σ.strictEqual v w = .ok true ∧
      σ.looseEqual v w = .ok true := by
  intro σ v w
  have hv : ∀ u ∈ σ.inside v, u = .shared 0 ∨ u = .null := by
    simp [v, inside, shape]
  have hw : ∀ u ∈ σ.inside w, u = .null ∨ u = .list [.bool true] := by
    simp [w, inside, shape]
  have hshared : ∀ u ∈ σ.inside (.shared 0), u = .int 1 := by
    simp [σ, inside, shape]
  have hlist : ∀ u ∈ σ.inside (.list [.bool true]), u = .bool true := by
    simp [inside, shape]
  have hacyclic : σ.IsAcyclic v := by
    refine isAcyclic_of_inside fun u hu => ?_
    rcases hv u hu with rfl | rfl
    · refine isAcyclic_of_inside fun u hu => ?_
      rw [hshared u hu]
      exact isAcyclic_of_plain rfl
    · exact isAcyclic_of_plain rfl
  have hkept : σ.IsKept v := by
    refine isKept_of_inside ?_ (by simp [v]) fun u hu => ?_
    · rintro entries ⟨⟩
      unfold Entries.Distinct
      decide
    · rcases hv u hu with rfl | rfl
      · refine isKept_of_inside (by rintro _ ⟨⟩) ?_ fun u hu => ?_
        · rintro place ⟨⟩
          decide
        · rw [hshared u hu]
          exact isKept_of_plain rfl rfl
      · exact isKept_of_plain rfl rfl
  have hkept' : σ.IsKept w := by
    refine isKept_of_inside ?_ (by simp [w]) fun u hu => ?_
    · rintro entries ⟨⟩
      unfold Entries.Distinct
      decide
    · rcases hw u hu with rfl | rfl
      · exact isKept_of_plain rfl rfl
      · refine isKept_of_inside (by rintro _ ⟨⟩) (by simp) fun u hu => ?_
        rw [hlist u hu]
        exact isKept_of_plain rfl rfl
  have hstrict : σ.strictEqual v w = .ok true := rfl
  rcases equalities_symmetric hacyclic hkept hkept' with ⟨hloose, hback, hweaker⟩
  exact ⟨hacyclic, hkept, hkept', hloose, hback, hstrict, hweaker hstrict⟩

end Store
end Stencil
