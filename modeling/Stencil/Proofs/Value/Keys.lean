import Mathlib.Data.List.Induction
import Stencil.Proofs.Value.Names

/-!
# Keys and merged entries

Keys that find the same entry do so in both directions and across a third one. So where no two
keys find the same entry, what is found among merged entries is what is found among those that
came last, or else among those that were there; and what is put among the last may as well be put
among all of them.
-/

namespace Stencil

/-! # Equal numbers -/

namespace Number

/-- Where a number lies: at an infinity, or at so many units of the smallest double. -/
def level? : Number → Option (Bool ⊕ Int)
  | int n => some (.inr (n * (Binary64.one : Nat)))
  | float (.nan _) => none
  | float (.infinity negative) => some (.inl negative)
  | float (.finite negative rank) =>
      some (.inr (if negative then -(Binary64.units rank : Int) else Binary64.units rank))

theorem one_ne_zero : ((Binary64.one : Nat) : Int) ≠ 0 := by
  unfold Binary64.one
  generalize 1074 = n
  exact Int.natCast_ne_zero.mpr (Nat.ne_of_gt (Nat.two_pow_pos n))

theorem equal_iff {x y : Number} :
    x.equal y = true ↔ ∃ level, y.level? = some level ∧ x.level? = some level := by
  have hone := one_ne_zero
  -- The unit is a large power of two, which nothing here should work out.
  unfold equal compare? level? Binary64.compareInt? Binary64.compare?
  generalize ((Binary64.one : Nat) : Int) = unit at hone ⊢
  cases x with
  | int a =>
      cases y with
      | int b =>
          have hsame : a * unit = b * unit ↔ a = b := Int.mul_eq_mul_right_iff hone
          simp [hsame]
      | float y =>
          cases y with
          | nan => simp
          | infinity negative => cases negative <;> simp
          | finite => simpa using eq_comm
  | float x =>
      cases y with
      | int b =>
          cases x with
          | nan => simp
          | infinity negative => cases negative <;> simp
          | finite => simp
      | float y =>
          cases x with
          | nan => simp
          | infinity negative =>
              cases y with
              | nan => simp
              | infinity other => cases negative <;> cases other <;> simp
              | finite => cases negative <;> simp
          | finite =>
              cases y with
              | nan => simp
              | infinity other => cases other <;> simp
              | finite => simp

end Number

/-! # Keys that find the same entry -/

namespace Key

theorem same_iff {a b : Key} :
    a.same b = true ↔
      a = b ∨ ∃ x y, a.number? = some x ∧ b.number? = some y ∧ x.equal y = true := by
  unfold same
  cases ha : a.number? <;> cases hb : b.number?
  · simp
  · have hne : a ≠ b := by
      rintro rfl
      cases ha.symm.trans hb
    simp [hne]
  · have hne : a ≠ b := by
      rintro rfl
      cases ha.symm.trans hb
    simp [hne]
  · simp [or_comm]

theorem same_refl (a : Key) : a.same a = true :=
  same_iff.mpr (.inl rfl)

theorem same_symm {a b : Key} (h : a.same b = true) : b.same a = true := by
  rcases same_iff.mp h with rfl | ⟨x, y, hx, hy, hequal⟩
  · exact h
  · rcases Number.equal_iff.mp hequal with ⟨level, hleft, hright⟩
    exact same_iff.mpr (.inr ⟨y, x, hy, hx, Number.equal_iff.mpr ⟨level, hright, hleft⟩⟩)

theorem same_trans {a b c : Key} (h : a.same b = true) (h' : b.same c = true) :
    a.same c = true := by
  rcases same_iff.mp h with rfl | ⟨x, y, hx, hy, hequal⟩
  · exact h'
  rcases same_iff.mp h' with rfl | ⟨y', z, hy', hz, hequal'⟩
  · exact h
  cases hy.symm.trans hy'
  rcases Number.equal_iff.mp hequal with ⟨level, hleft, hright⟩
  rcases Number.equal_iff.mp hequal' with ⟨level', hleft', hright'⟩
  cases hleft.symm.trans hright'
  exact same_iff.mpr (.inr ⟨x, z, hx, hz, Number.equal_iff.mpr ⟨level, hleft', hright⟩⟩)

theorem same_congr {a b : Key} (h : a.same b = true) (c : Key) : a.same c = b.same c :=
  Bool.eq_iff_iff.mpr ⟨same_trans (same_symm h), same_trans h⟩

theorem length_le_of_covers {names others : List Key}
    (hnames : names.Pairwise fun a b => a.same b = false)
    (h : ∀ name ∈ names, ∃ other ∈ others, other.same name = true) :
    names.length ≤ others.length := by
  induction names generalizing others with
  | nil => exact Nat.zero_le _
  | cons name rest ih =>
      rw [List.pairwise_cons] at hnames
      rcases h name List.mem_cons_self with ⟨other, hother, hsame⟩
      have hrest : rest.length ≤ (others.eraseP fun a => a.same name).length := by
        refine ih hnames.2 fun a ha => ?_
        rcases h a (List.mem_cons_of_mem name ha) with ⟨found, hfound, hfinds⟩
        refine ⟨found, (List.mem_eraseP_of_neg ?_).mpr hfound, hfinds⟩
        intro hname
        have htaken := same_trans (same_symm hname) hfinds
        rw [hnames.1 a ha] at htaken
        cases htaken
      have hlength : (others.eraseP fun a => a.same name).length = others.length - 1 :=
        List.length_eraseP_of_mem hother hsame
      have hpos := List.length_pos_of_mem hother
      rw [List.length_cons]
      omega

end Key

/-! # Entries -/

namespace Entries

variable {α : Type}

def Distinct (entries : Entries α) : Prop :=
  entries.Pairwise fun a b => a.1.same b.1 = false

theorem get?_cons (entry : Key × α) (rest : Entries α) (key : Key) :
    get? (entry :: rest) key = if entry.1.same key then some entry.2 else get? rest key := by
  unfold get?
  rw [List.find?_cons]
  cases entry.1.same key <;> rfl

theorem put_cons (entry : Key × α) (rest : Entries α) (key : Key) (value : α) :
    put (entry :: rest) key value =
      if entry.1.same key then (entry.1, value) :: rest else entry :: put rest key value :=
  rfl

theorem merge_cons (entries : Entries α) (entry : Key × α) (rest : Entries α) :
    merge entries (entry :: rest) = merge (entries.put entry.1 entry.2) rest :=
  rfl

theorem get?_put (entries : Entries α) (key other : Key) (value : α) :
    (entries.put key value).get? other =
      if key.same other then some value else entries.get? other := by
  induction entries with
  | nil => rw [put, get?_cons]
  | cons entry rest ih =>
      rw [put]
      cases hentry : entry.1.same key with
      | true =>
          rw [if_pos rfl, get?_cons, get?_cons, Key.same_congr hentry]
          cases key.same other <;> rfl
      | false =>
          rw [if_neg Bool.false_ne_true, get?_cons, get?_cons, ih]
          cases hother : key.same other with
          | false => rfl
          | true =>
              have hdiffers : entry.1.same other = false := by
                rw [Bool.eq_false_iff]
                intro hsame
                cases hentry.symm.trans (Key.same_trans hsame (Key.same_symm hother))
              simp [hdiffers]

theorem get?_merge {more : Entries α} (hmore : more.Distinct) (entries : Entries α) (key : Key) :
    (merge entries more).get? key = (more.get? key).or (entries.get? key) := by
  induction more generalizing entries with
  | nil => rfl
  | cons entry rest ih =>
      rcases List.pairwise_cons.mp hmore with ⟨hhead, hrest⟩
      rw [merge_cons, ih hrest, get?_put, get?_cons]
      cases hsame : entry.1.same key with
      | false => rfl
      | true =>
          have hnone : get? rest key = none := by
            rw [get?, Option.map_eq_none_iff, List.find?_eq_none]
            intro other hother hfound
            have hdiffers := hhead other hother
            rw [Key.same_trans hsame (Key.same_symm hfound)] at hdiffers
            cases hdiffers
          rw [hnone]
          rfl

/-! # Distinct keys -/

theorem keys_put (entries : Entries α) (key : Key) (value : α) :
    (entries.put key value).keys = entries.keys ∨
      (entries.put key value).keys = entries.keys ++ [key] ∧
        ∀ k ∈ entries.keys, k.same key = false := by
  induction entries with
  | nil => exact .inr ⟨rfl, fun _ hk => absurd hk List.not_mem_nil⟩
  | cons entry rest ih =>
      rw [put]
      cases hentry : entry.1.same key with
      | true => exact .inl rfl
      | false =>
          rw [if_neg Bool.false_ne_true]
          rcases ih with hkeys | ⟨hkeys, hnew⟩
          · exact .inl (congrArg (entry.1 :: ·) hkeys)
          · refine .inr ⟨congrArg (entry.1 :: ·) hkeys, ?_⟩
            intro k hk
            rcases List.mem_cons.mp hk with rfl | hk
            · exact hentry
            · exact hnew k hk

theorem distinct_iff {entries : Entries α} :
    entries.Distinct ↔ entries.keys.Pairwise fun a b => a.same b = false := by
  rw [Distinct, keys, List.pairwise_map]

theorem Distinct.put {entries : Entries α} (h : entries.Distinct) (key : Key) (value : α) :
    (entries.put key value).Distinct := by
  rw [distinct_iff] at h ⊢
  rcases entries.keys_put key value with hkeys | ⟨hkeys, hnew⟩
  · rw [hkeys]
    exact h
  · rw [hkeys, List.pairwise_append]
    refine ⟨h, List.pairwise_singleton _ _, ?_⟩
    intro k hk l hl
    rw [List.mem_singleton.mp hl]
    exact hnew k hk

theorem Distinct.merge {entries : Entries α} (h : entries.Distinct) (more : Entries α) :
    (entries.merge more).Distinct := by
  induction more generalizing entries with
  | nil => exact h
  | cons entry rest ih => exact ih (h.put entry.1 entry.2)

theorem distinct_ofPairs (pairs : Entries α) : (ofPairs pairs).Distinct :=
  Distinct.merge List.Pairwise.nil pairs

theorem keys_prefix_merge (entries more : Entries α) :
    entries.keys <+: (merge entries more).keys := by
  induction more generalizing entries with
  | nil => exact List.prefix_refl _
  | cons entry rest ih =>
      have hfirst : entries.keys <+: (entries.put entry.1 entry.2).keys := by
        rcases entries.keys_put entry.1 entry.2 with hkeys | ⟨hkeys, _⟩
        · exact ⟨[], by rw [hkeys, List.append_nil]⟩
        · exact ⟨[entry.1], hkeys.symm⟩
      exact hfirst.trans (ih (entries.put entry.1 entry.2))

theorem put_append {first : Entries α} {key : Key}
    (h : ∀ entry ∈ first, entry.1.same key = false) (more : Entries α) (value : α) :
    put (first ++ more) key value = first ++ put more key value := by
  induction first with
  | nil => rfl
  | cons entry rest ih =>
      rw [List.cons_append, put_cons, h entry List.mem_cons_self, if_neg Bool.false_ne_true,
        ih fun other hother => h other (List.mem_cons_of_mem entry hother)]
      rfl

theorem merge_of_prefix {first entries more : Entries α} (h : (first ++ more).Distinct)
    (hkeys : entries.keys <+: more.keys) : merge (first ++ entries) more = first ++ more := by
  induction more generalizing first entries with
  | nil =>
      have hnil : entries = [] := List.map_eq_nil_iff.mp (List.prefix_nil.mp hkeys)
      rw [hnil]
      rfl
  | cons entry rest ih =>
      have hfirst : ∀ other ∈ first, other.1.same entry.1 = false := fun other hother =>
        (List.pairwise_append.mp h).2.2 other hother entry List.mem_cons_self
      rw [List.append_cons] at h
      rw [merge_cons, put_append hfirst, List.append_cons]
      cases entries with
      | nil =>
          rw [← @ih _ [] h List.nil_prefix, List.append_nil]
          rfl
      | cons other others =>
          rcases List.cons_prefix_cons.mp hkeys with ⟨hkey, hothers⟩
          have hsame : other.1 = entry.1 := hkey
          rw [put_cons, hsame, Key.same_refl, if_pos rfl, List.append_cons]
          exact ih h hothers

theorem ofPairs_of_distinct {entries : Entries α} (h : entries.Distinct) :
    ofPairs entries = entries := by
  have hmerge : merge ([] ++ []) entries = [] ++ entries := merge_of_prefix h List.nil_prefix
  exact hmerge

/-! # Values put among merged entries -/

theorem put_put {a b : Key} (h : a.same b = true) (entries : Entries α) (v w : α) :
    (entries.put a v).put b w = entries.put a w := by
  induction entries with
  | nil =>
      show put [(a, v)] b w = [(a, w)]
      rw [put_cons, if_pos h]
  | cons entry rest ih =>
      rw [put_cons, put_cons]
      cases hentry : entry.1.same a with
      | true =>
          rw [if_pos rfl, if_pos rfl, put_cons, if_pos (Key.same_trans hentry h)]
      | false =>
          have hdiffers : ¬entry.1.same b = true := by
            intro hsame
            cases hentry.symm.trans (Key.same_trans hsame (Key.same_symm h))
          rw [if_neg Bool.false_ne_true, if_neg Bool.false_ne_true, put_cons, if_neg hdiffers, ih]

theorem put_comm {a b : Key} (h : b.same a = false) {entries : Entries α}
    (hthere : entries.has b = true) (v w : α) :
    (entries.put a v).put b w = (entries.put b w).put a v := by
  induction entries with
  | nil => cases hthere
  | cons entry rest ih =>
      rw [put_cons, put_cons]
      cases hb : entry.1.same b with
      | true =>
          have ha : entry.1.same a = false := (Key.same_congr hb a).trans h
          rw [ha, if_neg Bool.false_ne_true, if_pos rfl, put_cons, put_cons, hb, ha, if_pos rfl]
          rfl
      | false =>
          have hrest : has rest b = true := by
            rwa [has, List.any_cons, hb, Bool.false_or] at hthere
          cases ha : entry.1.same a with
          | true =>
              rw [if_pos rfl, if_neg Bool.false_ne_true, put_cons, put_cons, ha, hb]
              rfl
          | false =>
              rw [if_neg Bool.false_ne_true, if_neg Bool.false_ne_true, put_cons, put_cons, ha,
                hb, if_neg Bool.false_ne_true, if_neg Bool.false_ne_true, ih hrest]

theorem has_iff {entries : Entries α} {key : Key} :
    entries.has key = true ↔ (entries.get? key).isSome = true := by
  rw [has, get?, Option.isSome_map, List.find?_isSome, List.any_eq_true]

theorem has_put (entries : Entries α) (key other : Key) (value : α) :
    (entries.put key value).has other = (key.same other || entries.has other) := by
  rw [Bool.eq_iff_iff, has_iff, get?_put, Bool.or_eq_true, has_iff]
  cases key.same other <;> simp

theorem merge_put_comm {key : Key} {more : Entries α}
    (hmore : ∀ entry ∈ more, key.same entry.1 = false) {entries : Entries α}
    (hthere : entries.has key = true) (value : α) :
    (merge entries more).put key value = merge (entries.put key value) more := by
  induction more generalizing entries with
  | nil => rfl
  | cons entry rest ih =>
      have hkept : (entries.put entry.1 entry.2).has key = true := by
        rw [has_put, hthere, Bool.or_true]
      rw [merge_cons, merge_cons,
        ih (fun other hother => hmore other (List.mem_cons_of_mem entry hother)) hkept,
        put_comm (hmore entry List.mem_cons_self) hthere]

theorem merge_put {more : Entries α} (hmore : more.Distinct) (entries : Entries α) (key : Key)
    (value : α) : merge entries (more.put key value) = (merge entries more).put key value := by
  induction more generalizing entries with
  | nil => rfl
  | cons entry rest ih =>
      rcases List.pairwise_cons.mp hmore with ⟨hhead, hrest⟩
      rw [put_cons]
      cases hsame : entry.1.same key with
      | false => rw [if_neg Bool.false_ne_true, merge_cons, merge_cons, ih hrest]
      | true =>
          have hothers : ∀ other ∈ rest, key.same other.1 = false := by
            intro other hother
            rw [← Key.same_congr hsame]
            exact hhead other hother
          have hthere : (entries.put entry.1 entry.2).has key = true := by
            rw [has_put, hsame, Bool.true_or]
          rw [if_pos rfl, merge_cons, merge_cons, merge_put_comm hothers hthere, put_put hsame]

/-! # Rows of writes -/

def latest? (writes : Entries α) (key : Key) : Option α :=
  get? writes.reverse key

theorem latest?_concat (writes : Entries α) (entry : Key × α) (key : Key) :
    latest? (writes ++ [entry]) key =
      if entry.1.same key then some entry.2 else latest? writes key := by
  rw [latest?, List.reverse_append, List.reverse_singleton, List.singleton_append, get?_cons,
    latest?]

theorem get?_merge_latest (entries more : Entries α) (key : Key) :
    (merge entries more).get? key = (latest? more key).or (entries.get? key) := by
  induction more using List.reverseRecOn with
  | nil => rfl
  | append_singleton more last ih =>
      rw [merge_concat, get?_put, ih, latest?_concat]
      cases last.1.same key <;> rfl

theorem get?_ofPairs (pairs : Entries α) (key : Key) :
    (ofPairs pairs).get? key = latest? pairs key := by
  rw [ofPairs, get?_merge_latest]
  exact Option.or_none

theorem ofPairs_concat_entry (pairs : Entries α) (key : Key) (value : α) :
    ofPairs (pairs ++ [(key, value)]) = (ofPairs pairs).put key value :=
  merge_concat [] pairs key value

end Entries
end Stencil
