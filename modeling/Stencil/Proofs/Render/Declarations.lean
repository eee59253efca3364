import Mathlib
import Stencil.Proofs.Expression.Naming
import Stencil.Proofs.Render.Confinement
import Stencil.Proofs.Render.Growing
import Stencil.Proofs.Render.Isolation

/-!
# Declared names

A name that a declaration or the header of a loop binds is an identifier. As an expression it
reads as what it was bound to, unless the word is reserved for something else; and in a loop also
unless the loop binds the same name itself, which it does last.
-/

namespace Stencil

/-! # Reading a name -/

/-- What an identifier reads as in a scope: what it is bound to, unless it is a reserved word. -/
def Store.readAs (σ : Store) (scope : Nat) (name : String) (bound : Value) : Value :=
  match Expr.ofWord name with
  | .literal value => .ofLiteral value
  | .this => σ.receiver scope
  | _ => bound

theorem evalSource_name (host : Host) (scope : Nat) {name : String}
    (h : isName name.toList = true) (σ : Store) :
    evalSource host scope name σ = (.ok (σ.readAs scope name (σ.lookup scope name)), σ) := by
  unfold evalSource Store.readAs
  rw [compile_word h]
  unfold Expr.ofWord
  split <;> rfl

theorem Pattern.IsNamed.targets {pattern : Pattern} (h : pattern.IsNamed) :
    ∀ entry ∈ pattern.parts, isName entry.1.toList = true := by
  intro entry hentry
  cases pattern with
  | name target =>
      cases List.mem_singleton.mp hentry
      exact h
  | object entries =>
      rcases List.mem_map.mp hentry with ⟨given, hgiven, rfl⟩
      exact (h given hgiven).2
  | array targets =>
      rcases List.mem_map.mp hentry with ⟨given, hgiven, rfl⟩
      exact h given.1 (List.fst_mem_of_mem_zipIdx hgiven)

/-! # Parts of a value -/

namespace Store

variable {σ : Store} {scope : Nat} {value : Value}

theorem shape_bind (h : ∀ p, value = .scope p → scope ∉ σ.path p) (key : Key) (found : Value) :
    (σ.bind scope key found).shape value = σ.shape value := by
  cases value with
  | scope p => rw [shape, shape, bindings_bind_of_not_mem σ key found (h p rfl)]
  | _ => rfl

theorem member_congr {τ : Store} (h : τ.shape value = σ.shape value) (key : Value) :
    τ.member value key = σ.member value key := by
  unfold member
  rw [h]

theorem take_congr {τ : Store} (h : τ.shape value = σ.shape value) (part : Part) :
    part.take τ value = part.take σ value := by
  have hsequence : τ.isSequence value = σ.isSequence value := by
    rw [isSequence, isSequence, items?, items?, h]
  cases part with
  | whole => rfl
  | key name => rw [Part.take, Part.take, member_congr h]
  | position index => rw [Part.take, Part.take, hsequence, member_congr h]

theorem lookup_bind_self (h : σ.HasScope scope) (name : String) (found : Value) :
    (σ.bind scope (.str name) found).lookup scope name = found := by
  rw [lookup, bound?_bind_self σ _ _ h.there h.not_mem_outer, Key.same_refl]
  rfl

theorem lookup_bind_of_ne (h : σ.HasScope scope) {name other : String} (hne : name ≠ other)
    (found : Value) :
    (σ.bind scope (.str name) found).lookup scope other = σ.lookup scope other := by
  have hdiffers : (Key.str name).same (.str other) = false := by
    rw [Key.same_str]
    exact beq_false_of_ne (mt Key.str_eq_iff.mp hne)
  rw [lookup, bound?_bind_self σ _ _ h.there h.not_mem_outer, hdiffers]
  rfl

end Store

namespace Rendering

variable {scope : Nat} {value : Value}

theorem bindParts_cons {s : RenderState} {name : String} {part : Part} {found : Value}
    (h : part.take s.store value = .ok found) (rest : List (String × Part)) :
    bindParts scope value ((name, part) :: rest) s =
      bindParts scope value rest { s with store := s.store.bind scope (.str name) found } := by
  rw [bindParts, bind_def, bindPart, h]

variable (value) in
theorem bindParts_ok {s : RenderState} (hscope : s.store.HasScope scope)
    {parts : List (String × Part)} (hparts : ∀ entry ∈ parts, entry.2.IsNamed) :
    (bindParts scope value parts s).1 = .ok () ∧
      ∀ name, name ∉ parts.map Prod.fst →
        (bindParts scope value parts s).2.store.lookup scope name =
          s.store.lookup scope name := by
  induction parts generalizing s with
  | nil => exact ⟨rfl, fun _ _ => rfl⟩
  | cons entry rest ih =>
      rcases entry with ⟨target, part⟩
      rcases part.take_ok (hparts _ List.mem_cons_self) s.store value with ⟨found, hfound⟩
      have hbound := hscope.mono (s.store.grows_bind scope (.str target) found)
      have hrest := ih (s := { s with store := s.store.bind scope (.str target) found }) hbound
        fun other hother => hparts other (List.mem_cons_of_mem _ hother)
      rw [bindParts_cons hfound]
      refine ⟨hrest.1, fun name hname => ?_⟩
      rw [List.map_cons, List.mem_cons, not_or] at hname
      rw [hrest.2 name hname.2]
      exact Store.lookup_bind_of_ne hscope (Ne.symm hname.1) found

variable (value) in
theorem lookup_bindParts {s : RenderState} (hscope : s.store.HasScope scope)
    {before : List (String × Part)} {target : String} {part : Part}
    {after : List (String × Part)}
    (hparts : ∀ entry ∈ before ++ (target, part) :: after, entry.2.IsNamed)
    (hfresh : target ∉ after.map Prod.fst) :
    ∃ v, part.take (bindParts scope value before s).2.store value = .ok v ∧
      (bindParts scope value (before ++ (target, part) :: after) s).2.store.lookup scope target =
        v := by
  induction before generalizing s with
  | nil =>
      rcases part.take_ok (hparts _ List.mem_cons_self) s.store value with ⟨found, hfound⟩
      have hbound := hscope.mono (s.store.grows_bind scope (.str target) found)
      refine ⟨found, hfound, ?_⟩
      rw [List.nil_append, bindParts_cons hfound]
      have hrest := bindParts_ok value
        (s := { s with store := s.store.bind scope (.str target) found }) hbound
        fun other hother => hparts other (List.mem_cons_of_mem _ hother)
      rw [hrest.2 target hfresh]
      exact Store.lookup_bind_self hscope target found
  | cons entry before ih =>
      rcases entry with ⟨name, first⟩
      rcases first.take_ok (hparts _ List.mem_cons_self) s.store value with ⟨found, hfound⟩
      have hbound := hscope.mono (s.store.grows_bind scope (.str name) found)
      rw [List.cons_append, bindParts_cons hfound, bindParts_cons hfound]
      exact ih hbound fun other hother => hparts other (List.mem_cons_of_mem _ hother)

theorem take_bindParts {s : RenderState} (h : ∀ p, value = .scope p → scope ∉ s.store.path p)
    (row : List (String × Part)) (part : Part) :
    part.take (bindParts scope value row s).2.store value = part.take s.store value := by
  induction row generalizing s with
  | nil => rfl
  | cons entry rest ih =>
      rcases entry with ⟨name, first⟩
      cases hfound : first.take s.store value with
      | error failure =>
          rw [bindParts, bind_def, bindPart, hfound]
      | ok found =>
          have hpath : ∀ p, value = .scope p →
              scope ∉ (s.store.bind scope (.str name) found).path p := by
            intro p hp
            rw [Store.path_bind]
            exact h p hp
          rw [bindParts_cons hfound,
            ih (s := { s with store := s.store.bind scope (.str name) found }) hpath]
          exact Store.take_congr (Store.shape_bind h _ found) part

end Rendering

/-! # Names of a round -/

namespace Entries

theorem get?_ofNamed_eq_lookup (named : List (String × Value)) (name : String) :
    (ofNamed named).get? (.str name) = named.lookup name := by
  induction named with
  | nil => rfl
  | cons entry rest ih =>
      rw [ofNamed, List.map_cons, get?_cons_str, List.lookup_cons]
      by_cases hsame : entry.1 = name
      · simp [hsame]
      · have hdiffers : (name == entry.1) = false := beq_false_of_ne (Ne.symm hsame)
        rw [if_neg (mt Key.str_eq_iff.mp hsame), hdiffers]
        exact ih

theorem get?_ofPairs_ofNamed (named : List (String × Value)) (name : String) :
    (ofPairs (ofNamed named)).get? (.str name) = named.reverse.lookup name := by
  rw [get?_ofPairs, latest?, ofNamed, ← List.map_reverse]
  exact get?_ofNamed_eq_lookup named.reverse name

end Entries

namespace Round

/-- What a round binds besides the item and the index, the last first. -/
def own (i count : Nat) : Option Key × Value → List (String × Value)
  | (none, _) => [("isLast", .bool (i + 1 == count)), ("isFirst", .bool (i == 0))]
  | (some key, value) =>
      [("isLast", .bool (i + 1 == count)), ("isFirst", .bool (i == 0)), ("value", value),
        ("key", .ofKey key)]

theorem reverse_named (item index : String) (i count : Nat) (element : Option Key × Value) :
    (named item index i count element).reverse =
      own i count element ++ [(index, .int i), (item, element.2)] := by
  rcases element with ⟨key?, value⟩
  cases key? <;> rfl

theorem lookup_child (σ : Store) (scope : Nat) (item index : String) (i count : Nat)
    (element : Option Key × Value) (name : String) (declared : Value)
    (h : [(index, Value.int i), (item, element.2)].lookup name = some declared) :
    let inner := σ.child scope (ofElement item index count (element, i)).bindings (some element.2)
    inner.2.lookup inner.1 name = ((own i count element).lookup name).getD declared := by
  intro inner
  have hown : inner.2.own inner.1 =
      .ofPairs (.ofNamed (named item index i count element)) := by
    show (σ.child scope _ _).2.own σ.scopes.size = _
    rw [Store.own_child, if_pos rfl]
    rfl
  have hfound : (inner.2.own inner.1).get? (.str name) =
      some (((own i count element).lookup name).getD declared) := by
    rw [hown, Entries.get?_ofPairs_ofNamed, reverse_named, List.lookup_append, h]
    cases (own i count element).lookup name <;> rfl
  rw [Store.lookup, Store.bound?, Store.path, List.findSome?_cons, hfound]

end Round

/-! # What is read -/

/--
How the names of a pattern read in a store: each as its part of the value, as it was when its turn
came. That is the part that the value had before, unless the value is a scope that sees the names.
-/
def Store.ReadsTargets (host : Host) (scope : Nat) (value : Value) (s : RenderState)
    (pattern : Pattern) (σ : Store) : Prop :=
  ∀ before target part after, pattern.parts = before ++ (target, part) :: after →
    ∃ v, part.take (bindParts scope value before s).2.store value = .ok v ∧
      ((∀ p, value = .scope p → scope ∉ s.store.path p) → part.take s.store value = .ok v) ∧
      evalSource host scope target σ = (.ok (σ.readAs scope target v), σ)

/--
How the names in the header of a loop read where a round begins: as the element and its place,
unless the loop binds the name itself.
-/
structure Store.ReadsRound (host : Host) (inner : Nat) (item index : String) (i count : Nat)
    (element : Option Key × Value) (σ : Store) : Prop where
  item : evalSource host inner item σ =
    (.ok (σ.readAs inner item (((Round.own i count element).lookup item).getD element.2)), σ)
  index : evalSource host inner index σ =
    (.ok (σ.readAs inner index (((Round.own i count element).lookup index).getD (.int i))), σ)

theorem Store.readsTargets_bindParts (host : Host) {scope : Nat} {s : RenderState}
    (hscope : s.store.HasScope scope) (value : Value) {pattern : Pattern}
    (hnamed : pattern.IsNamed) (hnodup : (pattern.parts.map Prod.fst).Nodup) :
    (bindParts scope value pattern.parts s).2.store.ReadsTargets host scope value s pattern := by
  intro before target part after hsplit
  have hparts := hnamed.parts
  have htarget := hnamed.targets (target, part) (by simp [hsplit])
  rw [hsplit] at hparts hnodup
  have hfresh : target ∉ after.map Prod.fst := by
    rw [List.map_append, List.map_cons, List.nodup_append] at hnodup
    exact (List.nodup_cons.mp hnodup.2.1).1
  rcases Rendering.lookup_bindParts value hscope hparts hfresh with ⟨v, htake, hlookup⟩
  refine ⟨v, htake, fun hapart => ?_, ?_⟩
  · rw [← htake, Rendering.take_bindParts hapart]
  · rw [evalSource_name host scope htarget, hsplit, hlookup]

theorem Store.readsRound_child (host : Host) (σ : Store) (scope : Nat) {item index : String}
    (hitem : isName item.toList = true) (hindex : isName index.toList = true)
    (hne : item ≠ index) (i count : Nat) (element : Option Key × Value) :
    let inner := σ.child scope (Round.ofElement item index count (element, i)).bindings
      (some element.2)
    inner.2.ReadsRound host inner.1 item index i count element := by
  have hfirst : [(index, Value.int i), (item, element.2)].lookup item = some element.2 := by
    simp [List.lookup_cons, beq_false_of_ne hne]
  have hsecond : [(index, Value.int i), (item, element.2)].lookup index = some (.int i) := by
    simp
  constructor
  · rw [evalSource_name host _ hitem]
    rw [Round.lookup_child σ scope item index i count element item element.2 hfirst]
  · rw [evalSource_name host _ hindex]
    rw [Round.lookup_child σ scope item index i count element index (.int i) hsecond]

/-! # Renders on their way -/

theorem Rendering.renderNode_declaration {host : Host} {enter : Inclusion → Rendering Text}
    {scope line : Nat} {pattern : Pattern} {source : String} {value : Value} {s s₀ : RenderState}
    (hvalue : Rendering.valueOf host scope source s = (.ok value, s₀))
    (hbound : (bindParts scope value pattern.parts s₀).1 = .ok ()) :
    renderNode host enter scope (.declaration line pattern source) s =
      (.ok "", (bindParts scope value pattern.parts s₀).2) := by
  rw [renderNode, bind_def, hvalue]
  dsimp only
  rw [bind_def]
  generalize bindParts scope value pattern.parts s₀ = run at hbound ⊢
  rcases run with ⟨result, after⟩
  cases hbound
  rfl

namespace Course

variable {setup : RenderSetup} {c : Course} {within : Option Text} {scope : Nat}
  {others : List Node} {rest : List Task}

variable (c) in
theorem perform_ok {α : Type} {action : Rendering α} {a : α} {after : RenderState}
    (h : action c.state = (.ok a, after)) (go : α → Course → Course) :
    c.perform action go = go a { c with state := after } := by
  rw [perform, h]

theorem next?_visits {node : Node} (htasks : c.tasks = .nodes within scope (node :: others) :: rest)
    (htrouble : c.trouble = none) :
    c.next? setup =
      some (visit setup within scope node
        { c with tasks := .nodes within scope others :: rest }) := by
  rw [next?, htasks, htrouble]

theorem next?_begins {body : List Node} {loop later : Loop} {round : Round}
    (htasks : c.tasks = .rounds within scope body loop :: rest) (htrouble : c.trouble = none)
    (hround : loop.next? c.state.store = some (round, later)) :
    ∃ next, c.next? setup = some next ∧ next.trouble = none ∧
      next.tasks = .nodes within
          (c.state.store.child scope round.bindings (some round.receiver)).1 body ::
        .rounds within scope body later :: rest ∧
      next.state.store = (c.state.store.child scope round.bindings (some round.receiver)).2 := by
  rw [next?, htasks, htrouble]
  dsimp only
  rw [hround]
  exact ⟨_, rfl, rfl, rfl, rfl⟩

variable (c) in
theorem perform_error {α : Type} {action : Rendering α} {trouble : Trouble} {after : RenderState}
    (h : action c.state = (.error trouble, after)) (go : α → Course → Course) :
    c.perform action go = { c with state := after, trouble := some trouble } := by
  rw [perform, h]

variable (setup c) in
theorem visit_declaration (line : Nat) (pattern : Pattern) (source : String) :
    visit setup within scope (.declaration line pattern source) c =
      c.perform (renderNode setup.host (fun _ => return "") scope
        (.declaration line pattern source)) write :=
  rfl

variable (setup c scope) in
/-- Whether the value of an expression cannot be had, so that the next step gives the render up. -/
def GivesUp (source : String) : Prop :=
  ∃ again after next, setup.host.Escapes again ∧
    Rendering.valueOf setup.host scope source c.state = (.error again.trouble, after) ∧
    c.next? setup = some next ∧ next.trouble = some again.trouble

theorem reads_declaration (hplaced : c.IsPlaced) (htrouble : c.trouble = none) {line : Nat}
    {pattern : Pattern} {source : String} (hnamed : pattern.IsNamed)
    (hnodup : (pattern.parts.map Prod.fst).Nodup)
    (htasks : c.tasks = .nodes within scope (.declaration line pattern source :: others) :: rest) :
    GivesUp setup c scope source ∨
    ∃ value s next, Rendering.valueOf setup.host scope source c.state = (.ok value, s) ∧
      c.next? setup = some next ∧ next.trouble = none ∧
      next.tasks = .nodes within scope others :: rest ∧
      next.state.store.ReadsTargets setup.host scope value s pattern := by
  have hmem : .nodes within scope (.declaration line pattern source :: others) ∈ c.tasks := by
    rw [htasks]
    exact List.mem_cons_self
  have hhere : c.state.store.HasScope scope := hplaced _ hmem
  rcases Rendering.valueOf_cases setup.host scope source c.state with
    ⟨value, s, hvalue, -⟩ | ⟨again, after, hagain, hvalue⟩
  case inr =>
    refine .inl ⟨again, after, _, hagain, hvalue, next?_visits htasks htrouble, ?_⟩
    have hrun : renderNode setup.host (fun _ => return "") scope
        (.declaration line pattern source) c.state = (.error again.trouble, after) := by
      rw [renderNode, bind_def, hvalue]
    rw [visit_declaration,
      perform_error { c with tasks := .nodes within scope others :: rest } hrun]
  refine .inr ?_
  have hgrows := Rendering.Changes.valueOf (Store.allows_grows setup.host scope) source c.state
  rw [hvalue] at hgrows
  have hscope : s.store.HasScope scope := hhere.mono hgrows
  have hbound := (Rendering.bindParts_ok value hscope hnamed.parts).1
  have hrun : renderNode setup.host (fun _ => return "") scope (.declaration line pattern source)
      c.state = (.ok "", (bindParts scope value pattern.parts s).2) :=
    Rendering.renderNode_declaration hvalue hbound
  refine ⟨value, s, _, hvalue, next?_visits htasks htrouble, ?_⟩
  have hvisit : visit setup within scope (.declaration line pattern source)
        { c with tasks := .nodes within scope others :: rest } =
      write "" { c with
        tasks := .nodes within scope others :: rest
        state := (bindParts scope value pattern.parts s).2 } := by
    rw [visit_declaration]
    exact perform_ok { c with tasks := .nodes within scope others :: rest } hrun write
  rw [hvisit]
  exact ⟨htrouble, rfl, Store.readsTargets_bindParts setup.host hscope value hnamed hnodup⟩

theorem reads_loop (htrouble : c.trouble = none) {line : Nat} {item index source : String}
    {body : List Node}
    (htasks : c.tasks = .nodes within scope (.loop line item index source body :: others) :: rest) :
    GivesUp setup c scope source ∨
    ∃ collection s next, Rendering.valueOf setup.host scope source c.state = (.ok collection, s) ∧
      c.next? setup = some next ∧ next.trouble = none ∧ next.state = s ∧
      next.tasks = .rounds within scope body (.begin s.store item index collection) ::
        .nodes within scope others :: rest := by
  rcases Rendering.valueOf_cases setup.host scope source c.state with
    ⟨collection, s, hvalue, -⟩ | ⟨again, after, hagain, hvalue⟩
  case inr =>
    refine .inl ⟨again, after, _, hagain, hvalue, next?_visits htasks htrouble, ?_⟩
    have hrun : beginLoop setup.host scope item index source c.state =
        (.error again.trouble, after) := by
      rw [beginLoop, bind_def, hvalue]
    rw [visit, perform_error { c with tasks := .nodes within scope others :: rest } hrun]
  refine .inr ?_
  have hrun : beginLoop setup.host scope item index source c.state =
      (.ok (.begin s.store item index collection), s) := by
    rw [beginLoop, bind_def, hvalue]
    rfl
  refine ⟨collection, s, _, hvalue, next?_visits htasks htrouble, ?_⟩
  have hvisit : visit setup within scope (.loop line item index source body)
        { c with tasks := .nodes within scope others :: rest } =
      push (.rounds within scope body (.begin s.store item index collection))
        { c with tasks := .nodes within scope others :: rest, state := s } := by
    rw [visit]
    exact perform_ok { c with tasks := .nodes within scope others :: rest } hrun _
  rw [hvisit]
  exact ⟨htrouble, rfl, rfl⟩

variable (setup within scope rest) in
/--
How the rounds of a loop read: wherever the loop has come to an element, a round begins in which
the item and the index read as that element and its place.
-/
def ReadsRounds (body : List Node) (loop : Loop) : Prop :=
  ∀ (d : Course) (i : Nat) (element : Option Key × Value), d.trouble = none →
    d.tasks = .rounds within scope body { loop with turn := i } :: rest →
    (d.state.store.elements loop.collection)[i]? = some element →
    ∃ inner begun, d.next? setup = some begun ∧ begun.trouble = none ∧
      begun.tasks = .nodes within inner body ::
        .rounds within scope body { loop with turn := i + 1 } :: rest ∧
      begun.state.store.ReadsRound setup.host inner loop.item loop.index i loop.count element

theorem readsRounds {loop : Loop} (hitem : isName loop.item.toList = true)
    (hindex : isName loop.index.toList = true) (hne : loop.item ≠ loop.index) (body : List Node) :
    ReadsRounds setup within scope rest body loop := by
  intro d i element htrouble htasks helement
  have hround : { loop with turn := i }.next? d.state.store =
      some (.ofElement loop.item loop.index loop.count (element, i),
        { loop with turn := i + 1 }) := by
    rw [Loop.next?, helement]
    rfl
  rcases next?_begins htasks htrouble hround with ⟨begun, hbegun, hgoes, hlater, hstore⟩
  refine ⟨_, begun, hbegun, hgoes, hlater, ?_⟩
  rw [hstore]
  exact Store.readsRound_child setup.host d.state.store scope hitem hindex hne i loop.count element

/--
Wherever a render may come to a declaration of a parsed view, its names read right after it as the
parts of the value that they were bound to. Wherever it comes to a loop, the item and the index
read where each round begins as the element and its place, unless the loop itself binds a name of
its own in their stead. Either holds unless the name is a word that is reserved in expressions,
which reads as what it is reserved for. The elements are those that the collection has where the
loop begins, as long as no function of the host changes a container.
-/
theorem declared_names_read {view : Option Text} {nodes : List Node} {s : RenderState}
    (hroot : s.store.HasScope 0) (hreached : Leads setup (start view nodes s) c)
    (htrouble : c.trouble = none) {text : String} {tree : List Node}
    (hparse : View.parse text = .ok tree) :
    (∀ within scope line pattern source others rest,
      .declaration line pattern source ∈ Node.walkAll tree →
      (pattern.parts.map Prod.fst).Nodup →
      c.tasks = .nodes within scope (.declaration line pattern source :: others) :: rest →
      GivesUp setup c scope source ∨ ∃ value s next,
        Rendering.valueOf setup.host scope source c.state = (.ok value, s) ∧
        c.next? setup = some next ∧ next.trouble = none ∧
        next.tasks = .nodes within scope others :: rest ∧
        next.state.store.ReadsTargets setup.host scope value s pattern) ∧
    ∀ within scope line item index source body others rest,
      .loop line item index source body ∈ Node.walkAll tree → item ≠ index →
      c.tasks = .nodes within scope (.loop line item index source body :: others) :: rest →
      GivesUp setup c scope source ∨ ∃ collection s next,
        Rendering.valueOf setup.host scope source c.state = (.ok collection, s) ∧
        c.next? setup = some next ∧ next.trouble = none ∧ next.state = s ∧
        ∃ loop, next.tasks = .rounds within scope body loop :: .nodes within scope others :: rest ∧
          loop.item = item ∧ loop.index = index ∧ loop.turn = 0 ∧
          loop.count = (s.store.elements collection).length ∧
          (∀ σ : Store, σ.shared = s.store.shared →
            σ.elements loop.collection = s.store.elements collection) ∧
          ReadsRounds setup within scope (.nodes within scope others :: rest) body loop := by
  have hread := View.allRead_of_parse hparse
  have hplaced : c.IsPlaced := (isPlaced_start view nodes hroot).leads hreached
  constructor
  · intro within scope line pattern source others rest hmem hnodup htasks
    have hnamed : pattern.IsNamed := (Directive.IsRead.isNormal (hread _ hmem)).1
    exact reads_declaration hplaced htrouble hnamed hnodup htasks
  · intro within scope line item index source body others rest hmem hne htasks
    have hnames : isName item.toList = true ∧ isName index.toList = true :=
      Directive.IsRead.isNormal (hread _ hmem)
    rcases reads_loop htrouble htasks with
      hgives | ⟨collection, s, next, hvalue, hnext, hgoes, hstate, hrounds⟩
    · exact .inl hgives
    exact .inr ⟨collection, s, next, hvalue, hnext, hgoes, hstate, _, hrounds, rfl, rfl, rfl, rfl,
      fun σ hshared => Loop.elements_begin item index collection hshared,
      readsRounds hnames.1 hnames.2 hne body⟩

/-! # A pattern and a loop -/

def bareSetup : RenderSetup where
  host := .none
  source := MemoryViews.source "html" []
  maxDepth := 1

def blankState : RenderState :=
  ⟨.ofData [] [], none, [], []⟩

def partsAndLoop : List Node :=
  [ .declaration 1 (.object [("a", "x"), ("b", "b")]) "\x7ba: 1, b: 2\x7d",
    .loop 1 "v" "i" "[7]" [.interpolation 1 "v"] ]

theorem parse_partsAndLoop :
    View.parse "@var \x7ba: x, b\x7d = \x7ba: 1, b: 2\x7d;@each (v, i in [7])@\x7bv\x7d@end" =
      .ok partsAndLoop := by
  with_unfolding_all rfl

theorem valueOf_of_compile {source : String} {tree : Expr} (h : Expr.compile source = .ok tree)
    (host : Host) (scope : Nat) :
    Rendering.valueOf host scope source =
      Rendering.recover source (tree.eval host scope) .undefined := by
  rw [Rendering.valueOf, evalSource, h]

theorem declared_names_read_partsAndLoop :
    ∃ next begun inner, (start none partsAndLoop blankState).next? bareSetup = some next ∧
      evalSource .none 0 "x" next.state.store = (.ok (.int 1), next.state.store) ∧
      evalSource .none 0 "b" next.state.store = (.ok (.int 2), next.state.store) ∧
      Leads bareSetup next begun ∧
      evalSource .none inner "v" begun.state.store = (.ok (.int 7), begun.state.store) ∧
      evalSource .none inner "i" begun.state.store = (.ok (.int 0), begun.state.store) := by
  have hroot : blankState.store.HasScope 0 := Store.hasScope_root rfl
  have hmapping : Expr.compile "\x7ba: 1, b: 2\x7d" =
      .ok (.object [("a", .literal (.int 1)), ("b", .literal (.int 2))]) := by
    cbv
  have hlist : Expr.compile "[7]" = .ok (.array [.literal (.int 7)]) := by
    cbv
  have hvalue : ∀ s, Rendering.valueOf .none 0 "\x7ba: 1, b: 2\x7d" s =
      (.ok (.map [(.str "a", .int 1), (.str "b", .int 2)]), s) :=
    fun s => congrFun (valueOf_of_compile hmapping .none 0) s
  have hover : ∀ s, Rendering.valueOf .none 0 "[7]" s = (.ok (.list [.int 7]), s) :=
    fun s => congrFun (valueOf_of_compile hlist .none 0) s
  have hread := (@declared_names_read bareSetup (start none partsAndLoop blankState) none
    partsAndLoop blankState hroot .refl rfl _ _ parse_partsAndLoop).1
  rcases hread none 0 1 _ _ _ [] List.mem_cons_self (by decide) rfl with
    ⟨again, after, -, -, hgives, -⟩ | ⟨value, s, next, hbound, hnext, hgoes, htasks, htargets⟩
  · cases (hvalue _).symm.trans hgives
  cases (hvalue _).symm.trans hbound
  rcases htargets [] "x" (.key "a") _ rfl with ⟨x, hx, -, hreadsX⟩
  rcases htargets [("x", .key "a")] "b" (.key "b") [] rfl with ⟨b, hb, -, hreadsB⟩
  cases hx
  cases hb
  have hloops := (@declared_names_read bareSetup next none partsAndLoop blankState hroot
    (.step hnext .refl) hgoes _ _ parse_partsAndLoop).2
  have hmem : .loop 1 "v" "i" "[7]" [.interpolation 1 "v"] ∈ Node.walkAll partsAndLoop :=
    List.mem_cons_of_mem _ List.mem_cons_self
  rcases hloops none 0 1 _ _ _ _ [] [] hmem (by decide) htasks with
    ⟨again, after, -, -, hgives, -⟩ |
      ⟨collection, s, there, hloop, hthere, hgoes, hstate, loop, hrounds, hitem, hindex, hturn,
        hcount, helements, hreads⟩
  · cases (hover _).symm.trans hgives
  cases (hover _).symm.trans hloop
  have helement : (there.state.store.elements loop.collection)[0]? = some (none, .int 7) := by
    rw [helements _ (by rw [hstate])]
    rfl
  have hturned : there.tasks =
      .rounds none 0 [.interpolation 1 "v"] { loop with turn := 0 } :: [.nodes none 0 []] := by
    rw [hrounds, ← hturn]
  rcases hreads there 0 _ hgoes hturned helement with ⟨inner, begun, hbegun, -, -, hround⟩
  have hitemRead := hround.item
  have hindexRead := hround.index
  rw [hitem] at hitemRead
  rw [hindex] at hindexRead
  exact ⟨next, begun, inner, hnext, hreadsX, hreadsB, .step hthere (.step hbegun .refl),
    hitemRead, hindexRead⟩

/-- A reserved word can be declared, and does not read as what it was declared to be. -/
theorem declared_true_unread :
    View.parse "@var true = 0;" = .ok [.declaration 1 (.name "true") "0"] ∧
      Rendering.valueOf .none 0 "0" blankState = (.ok (.int 0), blankState) ∧
      ∃ next, (start none [.declaration 1 (.name "true") "0"] blankState).next? bareSetup =
          some next ∧
        evalSource .none 0 "true" next.state.store = (.ok (.bool true), next.state.store) :=
  ⟨by with_unfolding_all rfl, rfl, _, rfl, rfl⟩

end Course
end Stencil
