import Stencil.Journal.Event
import Stencil.Proofs.Json.Data
import Stencil.Proofs.Value.Parts

/-!
# Lines of events

Every event has a line, whatever the settings of the log are, and what the line says does not
depend on the store. So a log never fails to tell an event. As JSON, what is written under some
settings is the part of all lines whose entries the settings let through.
-/

namespace Stencil

/-! # Data in messages -/

namespace Store

section Quoted

variable (enter other : Place → String)

mutual

theorem quotedWith_of_isData :
    (v : Value) → v.IsData → quotedWith enter v = quotedWith other v
  | .null, h => rfl
  | .bool b, h => rfl
  | .int n, h => rfl
  | .float x, h => rfl
  | .str s, h => rfl
  | .list items, .list h => by
      rw [quotedWith, quotedWith, quotedItems_of_isData items h]
  | .map entries, .map _ _ h => by
      rw [quotedWith, quotedWith, quotedEntries_of_isData entries h]

theorem quotedItems_of_isData :
    (items : List Value) → (∀ v ∈ items, v.IsData) →
      quotedItems enter items = quotedItems other items
  | [], h => rfl
  | v :: rest, h => by
      rw [quotedItems, quotedItems, quotedWith_of_isData v (h v List.mem_cons_self),
        quotedItems_of_isData rest fun w hw => h w (List.mem_cons_of_mem _ hw)]

theorem quotedEntries_of_isData :
    (entries : List (Key × Value)) → (∀ entry ∈ entries, entry.2.IsData) →
      quotedEntries enter entries = quotedEntries other entries
  | [], h => rfl
  | (key, v) :: rest, h => by
      rw [quotedEntries, quotedEntries, quotedWith_of_isData v (h _ List.mem_cons_self),
        quotedEntries_of_isData rest fun entry hentry => h entry (List.mem_cons_of_mem _ hentry)]

end

end Quoted

theorem shown_of_isData (σ τ : Store) {entries : Entries Value} (h : (Value.map entries).IsData) :
    σ.shown (.map entries) = τ.shown (.map entries) :=
  congrArg Text.ofString (quotedWith_of_isData _ _ (.map entries) h)

end Store

/-! # What an event tells -/

namespace Event

variable (view : Text) (event : Event)

def fields : Entries Value :=
  field "view" (.str view) :: field "event" (.str event.name) :: event.ownFields

theorem allText_fields : (event.fields view).AllText := by
  cases event <;> simp [fields, ownFields, causeFields, field, Entries.AllText]

theorem distinct_fields : (event.fields view).Distinct := by
  rw [Entries.distinct_iff]
  cases event <;>
    simp only [fields, ownFields, causeFields, field, Entries.keys, List.map_cons,
      List.map_nil] <;>
    decide

theorem isData_fields : ∀ entry ∈ event.fields view, entry.2.IsData := by
  have htext (s : Text) : (Value.str s).IsData := .str s
  have hnumber (n : Int) : (Value.int n).IsData := .int n
  have hchain (chain : List Text) : (Value.list (chain.map .str)).IsData :=
    .list (by simp [htext])
  cases event <;> simp [fields, ownFields, causeFields, field, htext, hnumber, hchain]

def heading (time : String) : Entries Value :=
  [ (.str "timestamp", .str time),
    (.str "level", .str event.level.name),
    (.str "component", .str event.component),
    (.str "message", .str (event.message view)) ]

theorem entries_entry (time : String) (σ : Store) :
    (event.entry view).entries time σ =
      .ok (Entries.merge (event.heading view time) (event.fields view)) :=
  rfl

theorem distinct_heading (time : String) : (event.heading view time).Distinct := by
  rw [Entries.distinct_iff]
  simp only [heading, Entries.keys, List.map_cons, List.map_nil]
  decide

theorem isData_line (time : String) :
    (Value.map (Entries.merge (event.heading view time) (event.fields view))).IsData := by
  refine .map ((event.distinct_heading view time).merge _) ?_ ?_
  · refine Entries.AllText.merge ?_ (event.allText_fields view)
    simp [heading, Entries.AllText]
  · intro entry hentry
    rcases Store.mem_of_mem_merge (List.mem_map_of_mem hentry) with hvalue | hvalue
    · simp only [heading, List.map_cons, List.map_nil, List.mem_cons, List.not_mem_nil,
        or_false] at hvalue
      rcases hvalue with h | h | h | h <;> rw [h] <;> exact .str _
    · rcases List.mem_map.mp hvalue with ⟨own, hown, hsame⟩
      rw [← hsame]
      exact event.isData_fields view own hown

theorem exists_line (settings : LogSettings) (time : String) :
    ∃ line, ∀ σ, (event.entry view).line settings time σ = .ok line := by
  cases hformat : settings.format with
  | json =>
      rcases Store.exists_standsFor _ (event.isData_line view time) with ⟨d, hd⟩
      rcases Json.exists_write .logLine d hd.plain 0 with ⟨line, hline⟩
      refine ⟨line, fun σ => ?_⟩
      rw [LogEntry.line, hformat]
      show (event.entry view).jsonLine time σ = .ok line
      rw [LogEntry.jsonLine, entries_entry]
      show σ.fieldDocument _ >>= Json.text .logLine = .ok line
      rw [Store.fieldDocument, hd.field]
      exact hline
  | colored =>
      refine ⟨(event.entry view).coloredLine settings (.ofData [] []), fun σ => ?_⟩
      have hshown : σ.shown (event.entry view).context =
          (Store.ofData [] []).shown (event.entry view).context :=
        σ.shown_of_isData _ (.map (event.distinct_fields view) (event.allText_fields view)
          (event.isData_fields view))
      rw [LogEntry.line, hformat]
      show Except.ok ((event.entry view).coloredLine settings σ) = _
      rw [LogEntry.coloredLine, LogEntry.details?, hshown]
      rfl

end Event

/-! # Lines of a journal -/

namespace Journal

variable (settings : LogSettings) (time : String)

theorem lines_singleton {σ : Store} {entry : LogEntry} {line : Text}
    (hline : entry.line settings time σ = .ok line) :
    lines settings time σ [entry] = .ok (if entry.isEnabled settings then [line] else []) := by
  rw [lines, filtered, List.filter_singleton]
  cases entry.isEnabled settings with
  | false => rfl
  | true =>
      rw [cond_true, List.mapM_cons, hline]
      rfl

theorem lines_append {σ : Store} {journal more : Journal} {first others : List Text}
    (hfirst : lines settings time σ journal = .ok first)
    (hothers : lines settings time σ more = .ok others) :
    lines settings time σ (journal ++ more) = .ok (first ++ others) := by
  rw [lines, filtered, List.filter_append, List.mapM_append]
  rw [lines, filtered] at hfirst hothers
  rw [hfirst, hothers]
  rfl

theorem lines_of_json (hformat : settings.format = .json) {σ : Store}
    {told : List (LogEntry × Text)}
    (htold : ∀ entry ∈ told, entry.1.jsonLine time σ = .ok entry.2) :
    lines settings time σ (told.map Prod.fst) =
      .ok ((told.filter fun entry => entry.1.isEnabled settings).map Prod.snd) := by
  induction told with
  | nil => rfl
  | cons entry rest ih =>
      rcases List.forall_mem_cons.mp htold with ⟨hentry, hrest⟩
      have hfirst : lines settings time σ [entry.1] =
          .ok (if entry.1.isEnabled settings then [entry.2] else []) := by
        refine lines_singleton settings time ?_
        rw [LogEntry.line, hformat]
        exact hentry
      have happend := lines_append settings time hfirst (ih hrest)
      rw [List.map_cons, List.filter_cons]
      refine happend.trans ?_
      cases entry.1.isEnabled settings <;> rfl

end Journal
end Stencil
