import Stencil.Journal.Entry
import Stencil.Proofs.Json.Writing
import Stencil.Proofs.Value.Keys

/-!
# Data

Data are the values that JSON has a form for: null, booleans, whole numbers, finite numbers,
texts, and lists and mappings of them, the mappings with texts as keys. The document of such a
value needs nothing from the store, denotes the value again, and has a text in every style.
-/

namespace Stencil

/-! # Keys that are texts -/

namespace Entries

variable {α : Type} {entries : Entries α}

def AllText (entries : Entries α) : Prop :=
  ∀ entry ∈ entries, ∃ name, entry.1 = .str name

theorem AllText.tail {entry : Key × α} (h : AllText (entry :: entries)) : entries.AllText :=
  fun other hother => h other (List.mem_cons_of_mem _ hother)

theorem AllText.put (h : entries.AllText) (name : Text) (value : α) :
    (entries.put (.str name) value).AllText := by
  have hkeys : ∀ key ∈ (entries.put (.str name) value).keys, ∃ name, key = .str name := by
    intro key hkey
    have hold : key ∈ entries.keys ++ [.str name] := by
      rcases entries.keys_put (.str name) value with hsame | ⟨hmore, _⟩
      · exact List.mem_append_left _ (hsame ▸ hkey)
      · exact hmore ▸ hkey
    rcases List.mem_append.mp hold with hold | hnew
    · rcases List.mem_map.mp hold with ⟨entry, hentry, rfl⟩
      exact h entry hentry
    · exact ⟨name, List.mem_singleton.mp hnew⟩
  intro entry hentry
  exact hkeys entry.1 (List.mem_map_of_mem hentry)

theorem AllText.merge (h : entries.AllText) {more : Entries α} (hmore : more.AllText) :
    (entries.merge more).AllText := by
  induction more generalizing entries with
  | nil => exact h
  | cons entry rest ih =>
      rcases hmore entry List.mem_cons_self with ⟨name, hname⟩
      rw [merge_cons, hname]
      exact ih (h.put name entry.2) hmore.tail

end Entries

/-! # Plain documents -/

/-- Documents in which all numbers are finite and all keys texts. -/
inductive Document.IsPlain : Document → Prop where
  | null : IsPlain .null
  | bool (b : Bool) : IsPlain (.bool b)
  | int (n : Int) : IsPlain (.int n)
  | float {x : Binary64} (h : x.isFinite = true) : IsPlain (.float x)
  | str (s : Text) : IsPlain (.str s)
  | list {items : List Document} (h : ∀ d ∈ items, IsPlain d) : IsPlain (.list items)
  | object {entries : Entries Document} (hkeys : entries.AllText)
      (h : ∀ entry ∈ entries, IsPlain entry.2) : IsPlain (.object entries)

namespace Json

section Write

variable (style : JsonStyle)

theorem allThere_of_isPlain {d : Document} (h : d.IsPlain) : AllThere (texts style d) := by
  induction h with
  | float h => exact allThere_cons.mpr ⟨⟨_, if_pos h⟩, List.forall_mem_nil _⟩
  | list _ ih =>
      intro x hx
      rcases mem_textsOfItems.mp hx with ⟨d, hd, hx⟩
      exact ih d hd x hx
  | object hkeys _ ih =>
      intro x hx
      rcases mem_textsOfEntries.mp hx with ⟨entry, hentry, rfl | hx⟩
      · rcases hkeys entry hentry with ⟨name, hname⟩
        exact ⟨name, by rw [hname, keyText]⟩
      · exact ih entry hentry x hx
  | _ => exact List.forall_mem_nil _

theorem exists_write (d : Document) (h : d.IsPlain) (depth : Nat) :
    ∃ t, write style depth d = .ok t :=
  (reports_write d depth).exists_of_allThere (allThere_of_isPlain style h)

theorem exists_writeItems (items : List Document) (h : ∀ d ∈ items, d.IsPlain) (depth : Nat) :
    ∃ t, writeItems style depth items = .ok t :=
  (reports_writeItems items depth).exists_of_allThere (allThere_of_isPlain style (.list h))

theorem exists_writeEntries (entries : List (Key × Document)) (hkeys : Entries.AllText entries)
    (h : ∀ entry ∈ entries, entry.2.IsPlain) (depth : Nat) :
    ∃ t, writeEntries style depth entries = .ok t :=
  (reports_writeEntries entries depth).exists_of_allThere
    (allThere_of_isPlain style (.object hkeys h))

end Write

end Json

/-! # Data -/

inductive Value.IsData : Value → Prop where
  | null : IsData .null
  | bool (b : Bool) : IsData (.bool b)
  | int (n : Int) : IsData (.int n)
  | float {x : Binary64} (h : x.isFinite = true) : IsData (.float x)
  | str (s : Text) : IsData (.str s)
  | list {items : List Value} (h : ∀ v ∈ items, IsData v) : IsData (.list items)
  | map {entries : Entries Value} (hdistinct : entries.Distinct) (hkeys : entries.AllText)
      (h : ∀ entry ∈ entries, IsData entry.2) : IsData (.map entries)

namespace Store

/-- A plain document that stands for a value: it is made of the value, and denotes it. -/
structure StandsFor (d : Document) (v : Value) : Prop where
  document : ∀ enter, documentWith enter v = .ok d
  field : ∀ σ enter, fieldWith σ enter v = .ok d
  plain : d.IsPlain
  value : Value.ofDocument d = v

structure AllStandFor (ds : List Document) (items : List Value) : Prop where
  documents : ∀ enter, documentItems enter items = .ok ds
  fields : ∀ σ enter, fieldItems σ enter items = .ok ds
  plain : ∀ d ∈ ds, d.IsPlain
  values : Value.ofDocuments ds = items

structure EntriesStandFor (ds : Entries Document) (entries : Entries Value) : Prop where
  documents : ∀ enter, documentEntries enter entries = .ok ds
  fields : ∀ σ enter, fieldEntries σ enter entries = .ok ds
  keys : ds.AllText
  plain : ∀ entry ∈ ds, entry.2.IsPlain
  values : Value.ofEntries ds = entries

mutual

theorem exists_standsFor : (v : Value) → v.IsData → ∃ d, StandsFor d v
  | .null, h => ⟨.null, fun _ => rfl, fun _ _ => rfl, .null, rfl⟩
  | .bool b, h => ⟨.bool b, fun _ => rfl, fun _ _ => rfl, .bool b, rfl⟩
  | .int n, h => ⟨.int n, fun _ => rfl, fun _ _ => rfl, .int n, rfl⟩
  | .float x, .float h =>
      ⟨.float x, fun _ => by rw [documentWith, if_pos h], fun _ _ => rfl, .float h, rfl⟩
  | .str s, h => ⟨.str s, fun _ => rfl, fun _ _ => rfl, .str s, rfl⟩
  | .list items, .list h => by
      rcases exists_allStandFor items h with ⟨ds, hds⟩
      refine ⟨.list ds, ?_, ?_, .list hds.plain, ?_⟩
      · intro enter
        rw [documentWith, hds.documents]
        rfl
      · intro σ enter
        rw [fieldWith, hds.fields]
        rfl
      · rw [Value.ofDocument, hds.values]
  | .map entries, .map hdistinct hkeys h => by
      rcases exists_entriesStandFor entries hkeys h with ⟨ds, hds⟩
      refine ⟨.object ds, ?_, ?_, .object hds.keys hds.plain, ?_⟩
      · intro enter
        rw [documentWith, hds.documents]
        rfl
      · intro σ enter
        rw [fieldWith, hds.fields]
        rfl
      · rw [Value.ofDocument, hds.values, Entries.ofPairs_of_distinct hdistinct]

theorem exists_allStandFor :
    (items : List Value) → (∀ v ∈ items, v.IsData) → ∃ ds, AllStandFor ds items
  | [], h => ⟨[], fun _ => rfl, fun _ _ => rfl, by simp, rfl⟩
  | v :: rest, h => by
      rcases exists_standsFor v (h v List.mem_cons_self) with ⟨d, hd⟩
      rcases exists_allStandFor rest fun w hw => h w (List.mem_cons_of_mem _ hw) with ⟨ds, hds⟩
      refine ⟨d :: ds, ?_, ?_, ?_, ?_⟩
      · intro enter
        rw [documentItems, hd.document, hds.documents]
        rfl
      · intro σ enter
        rw [fieldItems, hd.field, hds.fields]
        rfl
      · exact List.forall_mem_cons.mpr ⟨hd.plain, hds.plain⟩
      · rw [Value.ofDocuments, hd.value, hds.values]

theorem exists_entriesStandFor :
    (entries : List (Key × Value)) → Entries.AllText entries →
      (∀ entry ∈ entries, entry.2.IsData) → ∃ ds, EntriesStandFor ds entries
  | [], hkeys, h => ⟨[], fun _ => rfl, fun _ _ => rfl, by simp [Entries.AllText], by simp, rfl⟩
  | (key, v) :: rest, hkeys, h => by
      rcases hkeys _ List.mem_cons_self with ⟨name, rfl⟩
      rcases exists_standsFor v (h _ List.mem_cons_self) with ⟨d, hd⟩
      rcases exists_entriesStandFor rest hkeys.tail
        fun entry hentry => h entry (List.mem_cons_of_mem _ hentry) with ⟨ds, hds⟩
      refine ⟨(.str name, d) :: ds, ?_, ?_, ?_, ?_, ?_⟩
      · intro enter
        rw [documentEntries, hd.document, hds.documents]
        rfl
      · intro σ enter
        rw [fieldEntries, hd.field, hds.fields]
        rfl
      · exact List.forall_mem_cons.mpr ⟨⟨name, rfl⟩, hds.keys⟩
      · exact List.forall_mem_cons.mpr ⟨hd.plain, hds.plain⟩
      · rw [Value.ofEntries, hd.value, hds.values]

end

end Store
end Stencil
