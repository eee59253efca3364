import Stencil.Proofs.Expression.Rows

/-!
# The reader by index

The reader can also run over one fixed row of tokens with an index that says where it stands. Then
it looks at tokens without a check that the row has one there, and it goes on over a token before it
knows what the token is, the stop token not excepted. This reading gives what the reader gives. It
never looks behind the stop token, and it stands there only if its last step has failed.
-/

namespace Stencil
namespace Cursor

open Stencil.Expr Grammar

/-! # Steps in a row -/

inductive Failure where
  | malformed (e : SyntaxError)
  /-- A look behind the end. -/
  | outside
  /-- More steps than a loop was given. -/
  | endless
deriving DecidableEq, Repr

/-- Where a reading stands, and the indices it has looked at, the latest first. -/
structure Track where
  index : Nat
  looks : List Nat
deriving DecidableEq, Repr

def Track.start : Track := ⟨0, []⟩

def Track.looked (track : Track) : Track :=
  { track with looks := track.index :: track.looks }

def Track.moved (track : Track) : Track :=
  { track with index := track.index + 1 }

/-- A computation that keeps its track when it fails. -/
abbrev Reading := EStateM Failure Track

def look (tokens : List Token) : Reading Token := do
  modify Track.looked
  match tokens[(← get).index]? with
  | some token => return token
  | none => throw .outside

def next (tokens : List Token) : Reading Token := do
  let token ← look tokens
  modify Track.moved
  return token

def acceptOf (signOf : α → String) (ops : List α) (tokens : List Token) : Reading (Option α) := do
  let token ← look tokens
  match ops.find? fun op => Token.isOperator token (signOf op) with
  | none => return none
  | some op =>
      modify Track.moved
      return some op

def accept (sign : String) (tokens : List Token) : Reading Bool := do
  return (← acceptOf id [sign] tokens).isSome

def expect (sign : String) (tokens : List Token) : Reading Unit := do
  unless ← accept sign tokens do
    throw (.malformed (.expected sign (← look tokens)))

/-! # Phrases -/

def itemsAt (closer : String) (one : Reading α) (more : Reading (List α)) (tokens : List Token) :
    Reading (List α) := do
  if ← accept closer tokens then return []
  else
    let first ← one
    if ← accept closer tokens then return [first]
    else
      expect "," tokens
      let others ← more
      return first :: others

mutual

def conditionalAt (tokens : List Token) : Nat → Reading Expr
  | 0 => throw .endless
  | fuel + 1 => do
      let test ← tierAt tokens fuel tiers
      if ← accept "?" tokens then
        let yes ← conditionalAt tokens fuel
        expect ":" tokens
        let no ← conditionalAt tokens fuel
        return .conditional test yes no
      else return test

def tierAt (tokens : List Token) : Nat → List Tier → Reading Expr
  | 0, _ => throw .endless
  | fuel + 1, [] => unaryAt tokens fuel
  | fuel + 1, ops :: tighter => do
      let first ← tierAt tokens fuel tighter
      chainAt tokens fuel ops tighter first

def chainAt (tokens : List Token) : Nat → Tier → List Tier → Expr → Reading Expr
  | 0, _, _, _ => throw .endless
  | fuel + 1, ops, tighter, left => do
      match ← acceptOf Connective.sign ops tokens with
      | none => return left
      | some op =>
          let right ← tierAt tokens fuel tighter
          chainAt tokens fuel ops tighter (op.join left right)

def unaryAt (tokens : List Token) : Nat → Reading Expr
  | 0 => throw .endless
  | fuel + 1 => do
      match ← acceptOf UnaryOp.sign unaryOps tokens with
      | some op =>
          let operand ← unaryAt tokens fuel
          return .unary op operand
      | none =>
          let first ← primaryAt tokens fuel
          suffixesAt tokens fuel first

def suffixesAt (tokens : List Token) : Nat → Expr → Reading Expr
  | 0, _ => throw .endless
  | fuel + 1, target => do
      if ← accept "." tokens then
        let found ← next tokens
        if found.kind == .name then
          suffixesAt tokens fuel (.member target (.literal (.str found.text)))
        else throw (.malformed (.noPropertyName found.position))
      else if ← accept "[" tokens then
        let key ← conditionalAt tokens fuel
        expect "]" tokens
        suffixesAt tokens fuel (.member target key)
      else if ← accept "(" tokens then
        let args ← listAt tokens fuel ")"
        suffixesAt tokens fuel (.call target args)
      else return target

def listAt (tokens : List Token) : Nat → String → Reading (List Expr)
  | 0, _ => throw .endless
  | fuel + 1, closer =>
      itemsAt closer (conditionalAt tokens fuel) (listAt tokens fuel closer) tokens

def primaryAt (tokens : List Token) : Nat → Reading Expr
  | 0 => throw .endless
  | fuel + 1 => do
      let token ← next tokens
      match token.kind with
      | .number => return ofNumber token.text
      | .string => return .literal (.str (unquote token.text))
      | .name => return .ofWord token.text
      | .operator =>
          if token.text == "(" then
            let inner ← conditionalAt tokens fuel
            expect ")" tokens
            return inner
          else if token.text == "[" then
            let items ← listAt tokens fuel "]"
            return .array items
          else if token.text == "\x7b" then
            let entries ← entriesAt tokens fuel
            return .object entries
          else throw (.malformed (.unexpected token))
      | .stop => throw (.malformed (.unexpected token))

def entriesAt (tokens : List Token) : Nat → Reading (List (Text × Expr))
  | 0 => throw .endless
  | fuel + 1 => itemsAt "\x7d" (entryAt tokens fuel) (entriesAt tokens fuel) tokens

def entryAt (tokens : List Token) : Nat → Reading (Text × Expr)
  | 0 => throw .endless
  | fuel + 1 => do
      let token ← next tokens
      match entryKey? token with
      | none => throw (.malformed (.noObjectKey token.position))
      | some key =>
          if ← accept ":" tokens then
            let value ← conditionalAt tokens fuel
            return (key.text, value)
          else
            match key with
            | .word text => return (text, .name text)
            | .quoted text => throw (.malformed (.noColon text))

end

def wholeAt (tokens : List Token) : Reading Expr := do
  if (← look tokens).kind == .stop then throw (.malformed .empty)
  let tree ← conditionalAt tokens (budgetFor tokens)
  if (← look tokens).kind != .stop then
    throw (.malformed (.unexpected (← look tokens)))
  return tree

/-! # Where a reading stands -/

variable {α β : Type} {tokens : List Token} {track : Track}

/-- A reading that stands at a token, and has looked at tokens only. -/
def Track.IsInside (tokens : List Token) (track : Track) : Prop :=
  track.index < tokens.length ∧ ∀ i ∈ track.looks, i < tokens.length

/-- A reading that is inside, or that has just gone on over the token it looked at. -/
def Track.IsSpent (tokens : List Token) (track : Track) : Prop :=
  track.IsInside tokens ∨ ∃ before : Track, before.IsInside tokens ∧ track = before.looked.moved

namespace Track.IsInside

theorem isSpent (h : track.IsInside tokens) : track.IsSpent tokens :=
  .inl h

theorem looked (h : track.IsInside tokens) : track.looked.IsInside tokens := by
  refine ⟨h.1, ?_⟩
  intro i hi
  rcases List.mem_cons.mp hi with rfl | hbefore
  · exact h.1
  · exact h.2 i hbefore

theorem isSpent_moved (h : track.IsInside tokens) : track.looked.moved.IsSpent tokens :=
  .inr ⟨track, h, rfl⟩

theorem index_le {last : Nat} (hlast : tokens.length = last + 1) (h : track.IsInside tokens) :
    track.index ≤ last := by
  have hlt := h.1
  omega

theorem looks_le {last : Nat} (hlast : tokens.length = last + 1) (h : track.IsInside tokens) :
    ∀ i ∈ track.looks, i ≤ last := by
  intro i hi
  have hlt := h.2 i hi
  omega

theorem exists_drop (h : track.IsInside tokens) :
    ∃ token, tokens[track.index]? = some token ∧
      tokens.drop track.index = token :: tokens.drop track.looked.moved.index :=
  ⟨tokens.get ⟨track.index, h.1⟩, List.getElem?_eq_getElem h.1, List.drop_eq_getElem_cons h.1⟩

end Track.IsInside

theorem Track.IsSpent.last {last : Nat} (hlast : tokens.length = last + 1)
    (h : track.IsSpent tokens) :
    (track.index ≤ last ∨ track.index = last + 1 ∧ track.looks.head? = some last) ∧
      ∀ i ∈ track.looks, i ≤ last := by
  rcases h with hinside | ⟨before, hinside, rfl⟩
  · exact ⟨.inl (hinside.index_le hlast), hinside.looks_le hlast⟩
  · have hlooks : ∀ i ∈ before.looked.looks, i ≤ last := hinside.looked.looks_le hlast
    refine ⟨?_, hlooks⟩
    rcases Nat.eq_or_lt_of_le (hinside.index_le hlast) with rfl | hlt
    · exact .inr ⟨rfl, rfl⟩
    · exact .inl hlt

/-! # Single steps -/

theorem run_bind {first : Reading α} {rest : α → Reading β} {a : α} {track' : Track}
    (h : first.run track = .ok a track') :
    (first >>= rest).run track = (rest a).run track' := by
  rw [EStateM.run_bind, h]

theorem run_bind_error {first : Reading α} {rest : α → Reading β} {failure : Failure}
    {track' : Track} (h : first.run track = .error failure track') :
    (first >>= rest).run track = .error failure track' := by
  rw [EStateM.run_bind, h]

theorem look_run {token : Token} (h : tokens[track.index]? = some token) :
    (look tokens).run track = .ok token track.looked := by
  unfold look
  simp [Track.looked, h]

theorem next_run {token : Token} (h : tokens[track.index]? = some token) :
    (next tokens).run track = .ok token track.looked.moved := by
  rw [next, run_bind (look_run h)]
  rfl

theorem kind_eq_stop_iff (hrow : StopsAtEnd tokens) {i : Nat} {token : Token}
    (htoken : tokens[i]? = some token) : token.kind = .stop ↔ i + 1 = tokens.length := by
  rcases hrow with ⟨body, stop, rfl, hstop, hbody⟩
  rw [List.length_append, List.length_singleton, Nat.add_right_cancel_iff]
  constructor
  · intro hkind
    by_cases hbefore : i < body.length
    · rw [List.getElem?_append_left hbefore] at htoken
      exact absurd hkind (hbody token (List.mem_of_getElem? htoken))
    · have hlength := (List.getElem?_eq_some_iff.mp htoken).1
      rw [List.length_append, List.length_singleton] at hlength
      omega
  · intro hlast
    rw [hlast, List.getElem?_concat_length, Option.some_inj] at htoken
    exact htoken ▸ hstop

theorem Track.IsInside.moved {token : Token} (hrow : StopsAtEnd tokens)
    (h : track.IsInside tokens) (htoken : tokens[track.index]? = some token)
    (hkind : token.kind ≠ .stop) :
    track.looked.moved.IsInside tokens := by
  have hlast := mt (kind_eq_stop_iff hrow htoken).mpr hkind
  exact ⟨Nat.lt_of_le_of_ne h.1 hlast, h.looked.2⟩

theorem acceptOf?_cons {signOf : α → String} (ops : List α) (token : Token) (rest : List Token) :
    acceptOf? signOf ops (token :: rest) =
      (ops.find? fun op => Token.isOperator token (signOf op)).map fun op => (op, rest) := by
  induction ops with
  | nil => rfl
  | cons op ops ih =>
      rw [acceptOf?] at ih ⊢
      rw [List.findSome?_cons, List.find?_cons, accept?]
      cases Token.isOperator token (signOf op) with
      | true => rfl
      | false => exact ih

theorem acceptOf_cases (hrow : StopsAtEnd tokens) (h : track.IsInside tokens)
    (signOf : α → String) (ops : List α) :
    (∃ track', (acceptOf signOf ops tokens).run track = .ok none track' ∧ track'.IsInside tokens ∧
        track'.index = track.index ∧
        acceptOf? signOf ops (tokens.drop track.index) = none) ∨
      ∃ op track', (acceptOf signOf ops tokens).run track = .ok (some op) track' ∧
        track'.IsInside tokens ∧
        acceptOf? signOf ops (tokens.drop track.index) =
          some (op, tokens.drop track'.index) := by
  rcases h.exists_drop with ⟨token, htoken, hdrop⟩
  rw [acceptOf, run_bind (look_run htoken), hdrop, acceptOf?_cons]
  cases hfind : ops.find? fun op => Token.isOperator token (signOf op) with
  | none => exact .inl ⟨track.looked, rfl, h.looked, rfl, rfl⟩
  | some op =>
      have hsign := isOperator_iff.mp
        (List.find?_some (p := fun op => Token.isOperator token (signOf op)) hfind)
      have hmoved := h.moved hrow htoken (by simp [hsign.1])
      exact .inr ⟨op, track.looked.moved, rfl, hmoved, rfl⟩

theorem acceptOf?_id_singleton (sign : String) (row : List Token) :
    acceptOf? id [sign] row = (accept? sign row).map fun rest => (sign, rest) := by
  rw [acceptOf?, List.findSome?_singleton]
  rfl

theorem accept_cases (hrow : StopsAtEnd tokens) (h : track.IsInside tokens) (sign : String) :
    (∃ track', (accept sign tokens).run track = .ok false track' ∧ track'.IsInside tokens ∧
        track'.index = track.index ∧ accept? sign (tokens.drop track.index) = none) ∨
      ∃ track', (accept sign tokens).run track = .ok true track' ∧ track'.IsInside tokens ∧
        accept? sign (tokens.drop track.index) = some (tokens.drop track'.index) := by
  rcases acceptOf_cases hrow h id [sign] with
    ⟨track', hrun, hinside, hindex, hread⟩ | ⟨op, track', hrun, hinside, hread⟩
  · rw [acceptOf?_id_singleton, Option.map_eq_none_iff] at hread
    refine .inl ⟨track', ?_, hinside, hindex, hread⟩
    rw [accept, run_bind hrun]
    rfl
  · rw [acceptOf?_id_singleton, Option.map_eq_some_iff] at hread
    rcases hread with ⟨rest, hread, heq⟩
    cases heq
    refine .inr ⟨track', ?_, hinside, hread⟩
    rw [accept, run_bind hrun]
    rfl

/-! # Readings by index and readings from the front -/

/--
What a reading by index comes to, and what the reader makes of the tokens from the same index on.
A phrase that is read leaves the index at a token.
-/
inductive Follows (tokens : List Token) :
    EStateM.Result Failure Track α → Except SyntaxError (α × List Token) → Prop where
  | ok {a : α} {track : Track} :
      track.IsInside tokens → Follows tokens (.ok a track) (.ok (a, tokens.drop track.index))
  | malformed {e : SyntaxError} {track : Track} :
      track.IsSpent tokens → Follows tokens (.error (.malformed e) track) (.error e)
  | endless {track : Track} : Follows tokens (.error .endless track) (.error .unfinished)

theorem Follows.bind {first : Reading α} {rest : α → Reading β}
    {read : Except SyntaxError (α × List Token)}
    {go : α × List Token → Except SyntaxError (β × List Token)}
    (h : Follows tokens (first.run track) read)
    (hrest : ∀ a (track' : Track), track'.IsInside tokens →
      Follows tokens ((rest a).run track') (go (a, tokens.drop track'.index))) :
    Follows tokens ((first >>= rest).run track) (read >>= go) := by
  rw [EStateM.run_bind]
  generalize first.run track = result at h ⊢
  cases h with
  | ok hinside => exact hrest _ _ hinside
  | malformed hspent => exact .malformed hspent
  | endless => exact .endless

theorem Follows.cases {result : EStateM.Result Failure Track α}
    {read : Except SyntaxError (α × List Token)} (h : Follows tokens result read) :
    (∃ a track, result = .ok a track ∧ read = .ok (a, tokens.drop track.index) ∧
        track.IsInside tokens) ∨
      (∃ e track, result = .error (.malformed e) track ∧ read = .error e ∧
        track.IsSpent tokens) ∨
      read = .error .unfinished := by
  cases h with
  | ok hinside => exact .inl ⟨_, _, rfl, rfl, hinside⟩
  | malformed hspent => exact .inr (.inl ⟨_, _, rfl, rfl, hspent⟩)
  | endless => exact .inr (.inr rfl)

theorem Follows.accept {sign : String} {yes no : Reading β}
    {read : Except SyntaxError (β × List Token)} (hrow : StopsAtEnd tokens)
    (h : track.IsInside tokens)
    (hyes : ∀ track' : Track, track'.IsInside tokens →
      accept? sign (tokens.drop track.index) = some (tokens.drop track'.index) →
      Follows tokens (yes.run track') read)
    (hno : ∀ track' : Track, track'.IsInside tokens → track'.index = track.index →
      accept? sign (tokens.drop track.index) = none → Follows tokens (no.run track') read) :
    Follows tokens
      ((Cursor.accept sign tokens >>= fun taken => if taken = true then yes else no).run track)
      read := by
  rcases accept_cases hrow h sign with
    ⟨track', hrun, hinside, hindex, hread⟩ | ⟨track', hrun, hinside, hread⟩
  · rw [run_bind hrun]
    exact hno track' hinside hindex hread
  · rw [run_bind hrun]
    exact hyes track' hinside hread

theorem Follows.expect {sign : String} {rest : Unit → Reading β}
    {go : List Token → Except SyntaxError (β × List Token)} (hrow : StopsAtEnd tokens)
    (h : track.IsInside tokens)
    (hrest : ∀ track' : Track, track'.IsInside tokens →
      Follows tokens ((rest ()).run track') (go (tokens.drop track'.index))) :
    Follows tokens ((Cursor.expect sign tokens >>= rest).run track)
      (Expr.expect sign (tokens.drop track.index) >>= go) := by
  rcases accept_cases hrow h sign with
    ⟨track', hrun, hinside, hindex, hread⟩ | ⟨track', hrun, hinside, hread⟩
  · rcases hinside.exists_drop with ⟨found, hfound, hdrop⟩
    have herror : Expr.expect sign (tokens.drop track.index) = .error (.expected sign found) := by
      rw [← hindex] at hread ⊢
      unfold Expr.expect
      rw [hread, hdrop]
    have hstuck : (Cursor.expect sign tokens).run track =
        .error (.malformed (.expected sign found)) track'.looked := by
      rw [Cursor.expect, run_bind hrun]
      change (look tokens >>= fun found => throw (.malformed (.expected sign found))).run track' = _
      rw [run_bind (look_run hfound)]
      rfl
    rw [herror, run_bind_error hstuck]
    exact .malformed hinside.looked.isSpent
  · have hok : Expr.expect sign (tokens.drop track.index) = .ok (tokens.drop track'.index) := by
      unfold Expr.expect
      rw [hread]
    have htaken : (Cursor.expect sign tokens).run track = .ok () track' := by
      rw [Cursor.expect, run_bind hrun]
      rfl
    rw [hok, run_bind htaken]
    exact hrest track' hinside

/-- A token that is taken whatever it is: the index may be behind the row until it is known. -/
theorem Follows.next {rest : Token → Reading β}
    {read : Except SyntaxError (β × List Token)} {token : Token}
    (htoken : tokens[track.index]? = some token)
    (hrest : Follows tokens ((rest token).run track.looked.moved) read) :
    Follows tokens ((Cursor.next tokens >>= rest).run track) read := by
  rw [run_bind (next_run htoken)]
  exact hrest

theorem Follows.items {closer : String} {one : Reading α} {more : Reading (List α)}
    {readOne : List Token → Except SyntaxError (α × List Token)}
    {readMore : List Token → Except SyntaxError (List α × List Token)} (hrow : StopsAtEnd tokens)
    (h : track.IsInside tokens)
    (hone : ∀ track : Track, track.IsInside tokens →
      Follows tokens (one.run track) (readOne (tokens.drop track.index)))
    (hmore : ∀ track : Track, track.IsInside tokens →
      Follows tokens (more.run track) (readMore (tokens.drop track.index))) :
    Follows tokens ((itemsAt closer one more tokens).run track)
      (itemsFrom closer readOne readMore (tokens.drop track.index)) := by
  rw [itemsAt, itemsFrom]
  apply Follows.accept hrow h
  · intro track hinside hread
    rw [hread]
    exact .ok hinside
  · intro track' hinside hindex hread
    rw [hread, ← hindex]
    apply (hone track' hinside).bind
    intro first track hfirst
    dsimp only
    apply Follows.accept hrow hfirst
    · intro track hinside hread
      rw [hread]
      exact .ok hinside
    · intro track' hinside hindex hread
      rw [hread, ← hindex]
      apply Follows.expect hrow hinside
      intro track hcomma
      apply (hmore track hcomma).bind
      intro others track hothers
      exact .ok hothers

/-! # Every function of the reader -/

/-- With a budget, each function by index does what the reader does from the index on. -/
structure FollowsWithin (tokens : List Token) (budget : Nat) : Prop where
  conditional {track : Track} : track.IsInside tokens →
    Follows tokens ((conditionalAt tokens budget).run track)
      (readConditional budget (tokens.drop track.index))
  tier {track : Track} (lower : List Tier) : track.IsInside tokens →
    Follows tokens ((tierAt tokens budget lower).run track)
      (readTier budget lower (tokens.drop track.index))
  chain {track : Track} (ops : Tier) (lower : List Tier) (left : Expr) :
    track.IsInside tokens →
    Follows tokens ((chainAt tokens budget ops lower left).run track)
      (readChain budget ops lower left (tokens.drop track.index))
  unary {track : Track} : track.IsInside tokens →
    Follows tokens ((unaryAt tokens budget).run track) (readUnary budget (tokens.drop track.index))
  suffixes {track : Track} (target : Expr) : track.IsInside tokens →
    Follows tokens ((suffixesAt tokens budget target).run track)
      (readSuffixes budget target (tokens.drop track.index))
  list {track : Track} (closer : String) : track.IsInside tokens →
    Follows tokens ((listAt tokens budget closer).run track)
      (readList budget closer (tokens.drop track.index))
  primary {track : Track} : track.IsInside tokens →
    Follows tokens ((primaryAt tokens budget).run track)
      (readPrimary budget (tokens.drop track.index))
  entries {track : Track} : track.IsInside tokens →
    Follows tokens ((entriesAt tokens budget).run track)
      (readEntries budget (tokens.drop track.index))
  entry {track : Track} : track.IsInside tokens →
    Follows tokens ((entryAt tokens budget).run track)
      (readEntry budget (tokens.drop track.index))

section Step

variable {budget : Nat} (hrow : StopsAtEnd tokens) (ih : FollowsWithin tokens budget)

include ih

theorem FollowsWithin.tier_succ (lower : List Tier) (h : track.IsInside tokens) :
    Follows tokens ((tierAt tokens (budget + 1) lower).run track)
      (readTier (budget + 1) lower (tokens.drop track.index)) := by
  cases lower with
  | nil => exact ih.unary h
  | cons ops lower =>
      rw [tierAt, readTier]
      apply (ih.tier lower h).bind
      intro first track hfirst
      exact ih.chain ops lower first hfirst

include hrow

theorem FollowsWithin.conditional_succ (h : track.IsInside tokens) :
    Follows tokens ((conditionalAt tokens (budget + 1)).run track)
      (readConditional (budget + 1) (tokens.drop track.index)) := by
  rw [conditionalAt, readConditional]
  apply (ih.tier tiers h).bind
  intro test track htest
  dsimp only
  apply Follows.accept hrow htest
  · intro track hinside hread
    rw [hread]
    apply (ih.conditional hinside).bind
    intro yes track hyes
    apply Follows.expect hrow hyes
    intro track hcolon
    apply (ih.conditional hcolon).bind
    intro no track hno
    exact .ok hno
  · intro track' hinside hindex hread
    rw [hread, ← hindex]
    exact .ok hinside

theorem FollowsWithin.chain_succ (ops : Tier) (lower : List Tier) (left : Expr)
    (h : track.IsInside tokens) :
    Follows tokens ((chainAt tokens (budget + 1) ops lower left).run track)
      (readChain (budget + 1) ops lower left (tokens.drop track.index)) := by
  rw [chainAt, readChain]
  rcases acceptOf_cases hrow h Connective.sign ops with
    ⟨track', hrun, hinside, hindex, hread⟩ | ⟨op, track', hrun, hinside, hread⟩
  · rw [run_bind hrun, hread, ← hindex]
    exact .ok hinside
  · rw [run_bind hrun, hread]
    apply (ih.tier lower hinside).bind
    intro right track hright
    exact ih.chain ops lower (op.join left right) hright

theorem FollowsWithin.unary_succ (h : track.IsInside tokens) :
    Follows tokens ((unaryAt tokens (budget + 1)).run track)
      (readUnary (budget + 1) (tokens.drop track.index)) := by
  rw [unaryAt, readUnary]
  rcases acceptOf_cases hrow h UnaryOp.sign unaryOps with
    ⟨track', hrun, hinside, hindex, hread⟩ | ⟨op, track', hrun, hinside, hread⟩
  · rw [run_bind hrun, hread, ← hindex]
    apply (ih.primary hinside).bind
    intro first track hfirst
    exact ih.suffixes first hfirst
  · rw [run_bind hrun, hread]
    apply (ih.unary hinside).bind
    intro operand track hoperand
    exact .ok hoperand

theorem FollowsWithin.suffixes_succ (target : Expr) (h : track.IsInside tokens) :
    Follows tokens ((suffixesAt tokens (budget + 1) target).run track)
      (readSuffixes (budget + 1) target (tokens.drop track.index)) := by
  rw [suffixesAt, readSuffixes]
  apply Follows.accept hrow h
  · intro track hinside hdot
    rcases hinside.exists_drop with ⟨found, hfound, hdrop⟩
    rw [hdot, hdrop]
    apply Follows.next hfound
    dsimp only
    by_cases hname : (found.kind == .name) = true
    · rw [if_pos hname, if_pos hname]
      exact ih.suffixes _ (hinside.moved hrow hfound (by simp_all))
    · rw [if_neg hname, if_neg hname]
      exact .malformed hinside.isSpent_moved
  · intro track' hinside hindex hdot
    rw [hdot, ← hindex]
    apply Follows.accept hrow hinside
    · intro track hinside hbracket
      rw [hbracket]
      apply (ih.conditional hinside).bind
      intro key track hkey
      apply Follows.expect hrow hkey
      intro track hclosing
      exact ih.suffixes _ hclosing
    · intro track hinside hindex hbracket
      rw [hbracket, ← hindex]
      apply Follows.accept hrow hinside
      · intro track hinside hparenthesis
        rw [hparenthesis]
        apply (ih.list ")" hinside).bind
        intro args track hargs
        exact ih.suffixes _ hargs
      · intro track hinside hindex hparenthesis
        rw [hparenthesis, ← hindex]
        exact .ok hinside

theorem FollowsWithin.list_succ (closer : String) (h : track.IsInside tokens) :
    Follows tokens ((listAt tokens (budget + 1) closer).run track)
      (readList (budget + 1) closer (tokens.drop track.index)) := by
  rw [listAt, readList_eq]
  exact Follows.items hrow h (fun _ => ih.conditional) fun _ => ih.list closer

theorem FollowsWithin.primary_succ (h : track.IsInside tokens) :
    Follows tokens ((primaryAt tokens (budget + 1)).run track)
      (readPrimary (budget + 1) (tokens.drop track.index)) := by
  rcases h.exists_drop with ⟨token, htoken, hdrop⟩
  rw [primaryAt, hdrop, readPrimary]
  apply Follows.next htoken
  cases hkind : token.kind with
  | number => exact .ok (h.moved hrow htoken (by simp [hkind]))
  | string => exact .ok (h.moved hrow htoken (by simp [hkind]))
  | name => exact .ok (h.moved hrow htoken (by simp [hkind]))
  | operator =>
      have hinside := h.moved hrow htoken (by simp [hkind])
      dsimp only
      by_cases hgroup : (token.text == "(") = true
      · rw [if_pos hgroup, if_pos hgroup]
        apply (ih.conditional hinside).bind
        intro inner track hinner
        apply Follows.expect hrow hinner
        intro track hclosing
        exact .ok hclosing
      · rw [if_neg hgroup, if_neg hgroup]
        by_cases harray : (token.text == "[") = true
        · rw [if_pos harray, if_pos harray]
          apply (ih.list "]" hinside).bind
          intro items track hitems
          exact .ok hitems
        · rw [if_neg harray, if_neg harray]
          by_cases hobject : (token.text == "\x7b") = true
          · rw [if_pos hobject, if_pos hobject]
            apply (ih.entries hinside).bind
            intro entries track hentries
            exact .ok hentries
          · rw [if_neg hobject, if_neg hobject]
            exact .malformed hinside.isSpent
  | stop => exact .malformed h.isSpent_moved

theorem FollowsWithin.entries_succ (h : track.IsInside tokens) :
    Follows tokens ((entriesAt tokens (budget + 1)).run track)
      (readEntries (budget + 1) (tokens.drop track.index)) := by
  rw [entriesAt, readEntries_eq]
  exact Follows.items hrow h (fun _ => ih.entry) fun _ => ih.entries

theorem FollowsWithin.entry_succ (h : track.IsInside tokens) :
    Follows tokens ((entryAt tokens (budget + 1)).run track)
      (readEntry (budget + 1) (tokens.drop track.index)) := by
  rcases h.exists_drop with ⟨token, htoken, hdrop⟩
  rw [entryAt, hdrop, readEntry]
  apply Follows.next htoken
  cases hkey : entryKey? token with
  | none => exact .malformed h.isSpent_moved
  | some key =>
      have hinside := h.moved hrow htoken (keys_of_entryKey? hkey).ne_stop
      dsimp only
      apply Follows.accept hrow hinside
      · intro track hinside hcolon
        rw [hcolon]
        apply (ih.conditional hinside).bind
        intro value track hvalue
        exact .ok hvalue
      · intro track' hinside hindex hcolon
        rw [hcolon, ← hindex]
        cases key with
        | word text => exact .ok hinside
        | quoted text => exact .malformed hinside.isSpent

end Step

theorem followsWithin (hrow : StopsAtEnd tokens) (budget : Nat) : FollowsWithin tokens budget := by
  induction budget with
  | zero =>
      exact {
        conditional := fun _ => .endless
        tier := fun _ _ => .endless
        chain := fun _ _ _ _ => .endless
        unary := fun _ => .endless
        suffixes := fun _ _ => .endless
        list := fun _ _ => .endless
        primary := fun _ => .endless
        entries := fun _ => .endless
        entry := fun _ => .endless }
  | succ budget ih =>
      exact {
        conditional := ih.conditional_succ hrow
        tier := ih.tier_succ
        chain := ih.chain_succ hrow
        unary := ih.unary_succ hrow
        suffixes := ih.suffixes_succ hrow
        list := ih.list_succ hrow
        primary := ih.primary_succ hrow
        entries := ih.entries_succ hrow
        entry := ih.entry_succ hrow }

end Cursor
end Stencil
