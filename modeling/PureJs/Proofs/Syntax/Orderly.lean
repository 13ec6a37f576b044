import Mathlib.Logic.Relation
import PureJs.Proofs.Syntax.Descent
import PureJs.Proofs.Syntax.TypeText
import PureJs.Proofs.Token.Coverage

/-!
Reading the tokens of a text comes to an end: no chain of calls is longer than eight for each token.
Every part that is called for it stands in some construct, takes tokens in front of the end of the
input, and leaves the layout as it found it.
-/

namespace PureJs

namespace Cursor

/-- The next token is the one at this position. The end of the input, which is the last of the
tokens and no other one, is still to come. -/
structure StandsAt (tokens : List Token) (position : Nat) (c : Cursor) : Prop where
  rest : tokens.drop position = c.tokens ++ [c.finish]
  inside : ∀ t ∈ c.tokens, t.kind ≠ .endOfInput
  finish : c.finish.kind = .endOfInput

variable {tokens : List Token} {position : Nat} {c after : Cursor}

theorem StandsAt.further (stands : c.StandsAt tokens position)
    (suffix : after.tokens <:+ c.tokens) (finish : after.finish = c.finish) :
    after.StandsAt tokens (position + (c.tokens.length - after.tokens.length)) := by
  obtain ⟨taken, split⟩ := suffix
  refine ⟨?_, ?_, finish ▸ stands.finish⟩
  · have length : c.tokens.length - after.tokens.length = taken.length := by
      simp [← split]
    rw [length, ← List.drop_drop, stands.rest, ← split, finish, List.append_assoc,
      List.drop_left]
  · intro t member
    exact stands.inside t (split ▸ List.mem_append_right taken member)

end Cursor

theorem Reads.moves {α : Type} {c after : Cursor} {least : Nat} {good : α → Prop}
    {result : Except ParseFault (α × Cursor)} (reads : Reads c least good result)
    (returned : result.map Prod.snd = .ok after) : c.Moves least after := by
  obtain ⟨⟨value, _⟩, read, rfl⟩ := map_gives returned
  exact (reads value _ read).2

theorem Reads.moves_some {α : Type} {c after : Cursor} {least : Nat} {good : α → Prop}
    {result : Except ParseFault (α × Cursor)} (reads : Reads c least good result)
    (returned : result.map (some ·.2) = .ok (some after)) : c.Moves least after := by
  obtain ⟨⟨value, _⟩, read, ⟨⟩⟩ := map_gives returned
  exact (reads value _ read).2

namespace Expr

def Reader.least : Reader → Nat
  | chain _ _ | arguments _ => 0
  | _ => 1

theorem Call.moves {call : Call} {after : Cursor} (ready : call.cursor.Ready)
    (asks : call.reader.Asks call.cursor) (returned : call.run = .ok after) :
    call.cursor.Moves call.reader.least after := by
  obtain ⟨reader, bound, c⟩ := call
  have all := all_read bound
  cases reader with
  | expression => exact (all.parse c ready).moves returned
  | binary least => exact (all.binary least c ready).moves returned
  | chain least left => exact (all.chain least left c ready asks).moves returned
  | unary => exact (all.unary c ready).moves returned
  | application => exact (all.app c ready).moves returned
  | arguments function => exact (all.arguments function c ready asks).moves returned
  | atom => exact (all.atom c ready).moves returned
  | items => exact (all.items c ready).moves returned
  | lambda => exact (all.lambda c ready asks).moves returned
  | conditional => exact (all.cond c ready asks).moves returned
  | block => exact (all.block c ready asks).moves returned
  | statements column => exact (all.statements column c ready).moves returned
  | statement => exact (all.statement c ready).moves returned

end Expr

namespace Module

open Cursor

theorem scanned_stands {text : List Char} {tokens : List Token}
    (scanned : Token.scan text = .ok tokens) : (Cursor.ofTokens tokens).StandsAt tokens 0 := by
  obtain ⟨pieces, cuts, rfl⟩ := Token.scan_cuts scanned
  have fills : Token.Fills [] text (Token.locate .start 0 0 pieces) := Token.locate_fills cuts [] 0
  obtain ⟨lexed, last, split, kind, _, _, inside⟩ := fills.ends
  rw [split]
  constructor
  · simp [Cursor.ofTokens]
  · intro t member
    exact (inside t (by simpa [Cursor.ofTokens] using member)).1
  · simpa [Cursor.ofTokens] using kind

def Call.weight (call : Call) : Nat := 8 * call.cursor.tokens.length + call.reader.rank

/-- The call is made among the tokens, in some construct, and with what its part relies on. -/
structure Call.Posed (tokens : List Token) (call : Call) : Prop where
  stands : ∃ position, call.cursor.StandsAt tokens position
  ready : call.cursor.Ready
  asks : call.reader.Asks call.cursor
  layout : call.cursor.layout ≠ []

variable {file : String} {text : List Char} {tokens : List Token}

theorem scanned_length {source : List Char} (scanned : Token.scan source = .ok tokens) :
    (Cursor.ofTokens tokens).tokens.length + 1 = tokens.length := by
  simpa using (congrArg List.length (scanned_stands scanned).rest).symm

theorem modules_posed {source : List Char} (scanned : Token.scan source = .ok tokens) {bound : Nat}
    (enough : tokens.length ≤ bound) : Call.Posed tokens ⟨.modules bound, .ofTokens tokens⟩ where
  stands := ⟨0, scanned_stands scanned⟩
  ready := scanned_ready scanned
  asks := (scanned_length scanned).le.trans enough
  layout := List.cons_ne_nil 1 []

theorem Calls.posed {call next : Call} (calls : Calls file text call next)
    (posed : call.Posed tokens) : next.Posed tokens ∧ next.weight < call.weight := by
  obtain ⟨least, reaches, lower, asks⟩ := calls.goes_on posed.ready posed.asks
  obtain ⟨position, stands⟩ := posed.stands
  refine ⟨⟨⟨_, stands.further reaches.suffix reaches.finish⟩, reaches.ready posed.ready, asks, ?_⟩,
    ?_⟩
  · intro none
    have inner := reaches.layout
    rw [none, List.suffix_nil] at inner
    exact posed.layout inner
  · have length := reaches.length
    unfold Call.weight
    omega

theorem reached_posed {start call : Call} (posed : start.Posed tokens)
    (reached : Relation.ReflTransGen (Calls file text) start call) : call.Posed tokens := by
  induction reached with
  | refl => exact posed
  | tail _ calls ih => exact (calls.posed ih).1

theorem chain_bounded {call : Call} {calls : List Call} (posed : call.Posed tokens)
    (chain : List.IsChain (Calls file text) (call :: calls)) : calls.length ≤ call.weight := by
  induction calls generalizing call with
  | nil => exact Nat.zero_le _
  | cons next rest ih =>
    obtain ⟨first, others⟩ := List.isChain_cons_cons.mp chain
    obtain ⟨after, less⟩ := first.posed posed
    have shorter := ih after others
    rw [List.length_cons]
    omega

theorem Call.Posed.ends {call : Call} (posed : call.Posed tokens) :
    call.run file text ≠ .error .exhausted := by
  induction weight : call.weight using Nat.strongRecOn generalizing call with
  | ind _ ih =>
    intro ends
    rcases Call.overruns ends with spent | ⟨next, calls, later⟩
    · exact posed.asks.unspent spent
    · obtain ⟨after, less⟩ := calls.posed posed
      exact ih next.weight (weight ▸ less) after rfl later

theorem type_advances {c : Cursor} (stale : c.fresh = false) :
    Reads c 1 (fun _ => True) (parseType text c) := by
  intro stored after parsed
  obtain ⟨type, takes, _, some, _⟩ := type_takes stale parsed
  refine ⟨trivial, ⟨type, takes.tokens.symm⟩, ?_, takes.finish, takes.layout⟩
  rw [takes.tokens, List.length_append]
  have length := List.length_pos_of_ne_nil some
  omega

def Reader.least : Reader → Nat
  | modules _ | parts _ => 0
  | expression reader _ => reader.least
  | _ => 1

theorem Call.moves {call : Call} {after : Cursor} (ready : call.cursor.Ready)
    (asks : call.reader.Asks call.cursor) (returned : call.run file text = .ok (some after)) :
    call.cursor.Moves call.reader.least after := by
  have each : ∀ d, call.cursor.Moves 0 d → Reads d 1 Item.Formed (parseItem text d) :=
    fun d moves => item_reads (ready.moves moves) text
  obtain ⟨reader, c⟩ := call
  cases reader with
  | modules bound =>
    obtain ⟨_, _, none⟩ := map_gives returned
    cases none
  | module => exact (one_reads each ready file (Moves.refl c)).moves_some returned
  | parts bound => exact (items_read each bound (Moves.refl c)).moves_some returned
  | part => exact (item_reads ready text).moves_some returned
  | «import» => exact (import_reads ready asks).moves_some returned
  | foreign => exact (foreign_reads ready text asks).moves_some returned
  | signature => exact (signature_reads ready text asks.1 asks.2).moves_some returned
  | value => exact (value_reads ready asks).moves_some returned
  | type => exact (type_advances asks).moves_some returned
  | expression reader bound =>
    obtain ⟨_, read, ⟨⟩⟩ := map_gives returned
    exact Expr.Call.moves ready asks.1 read

/-- The call ends otherwise than by its bound. Where it returns, it has taken tokens in front of the
end of the input, and left the layout, in which there is some construct, as it found it. -/
structure Call.Orderly (file : String) (text : List Char) (tokens : List Token) (call : Call) :
    Prop where
  layout : call.cursor.layout ≠ []
  ends : call.run file text ≠ .error .exhausted
  returns : ∀ after, call.run file text = .ok (some after) → ∃ position later,
    call.cursor.StandsAt tokens position ∧ after.StandsAt tokens later ∧
      position + call.reader.least ≤ later ∧ after.layout = call.cursor.layout

theorem Call.Posed.orderly {call : Call} (posed : call.Posed tokens) :
    call.Orderly file text tokens := by
  refine ⟨posed.layout, posed.ends, ?_⟩
  intro after returned
  obtain ⟨position, stands⟩ := posed.stands
  have moves := Call.moves posed.ready posed.asks returned
  refine ⟨position, _, stands, stands.further moves.suffix moves.finish, ?_, moves.layout⟩
  have length := moves.length
  omega

/-- The tokens of a text are read, or refused for a fault that lies in them. No chain of calls that
this takes is longer than eight for each token, whatever the bounds, and all these calls are
orderly. -/
theorem reading_orderly {source : List Char} (scanned : Token.scan source = .ok tokens)
    (file : String) (text : List Char) {bound : Nat} (enough : tokens.length ≤ bound) :
    (∀ fault, parseAll file text bound (.ofTokens tokens) = .error fault → fault.Arises tokens) ∧
      (∀ calls, List.IsChain (Calls file text) (⟨.modules bound, .ofTokens tokens⟩ :: calls) →
        calls.length < 8 * tokens.length) ∧
      ∀ call, Relation.ReflTransGen (Calls file text) ⟨.modules bound, .ofTokens tokens⟩ call →
        call.Orderly file text tokens := by
  have posed := modules_posed scanned enough
  refine ⟨?_, ?_, ?_⟩
  · intro fault failed
    have arises := all_settle file text bound posed.ready posed.asks fault failed
    exact arises.mono (List.dropLast_subset tokens)
  · intro calls chain
    have short := chain_bounded posed chain
    have length := scanned_length scanned
    simp only [Call.weight, Reader.rank] at short
    omega
  · intro call reached
    exact (reached_posed posed reached).orderly

def layeredText : List Char :=
  ("module A where\nx = [do\n  f (g [1, -2]) do\n    let y a = if b then a else 2\n" ++
    "    c <- y 3\n    \\z -> z c]\n").toList

theorem layered_reading_orderly :
    ∃ tokens modules, Token.scan layeredText = .ok tokens ∧ tokens.length ≤ 60 ∧
      parseAll unnamedFile layeredText 60 (.ofTokens tokens) = .ok modules ∧
      (∀ fault, parseAll unnamedFile layeredText 60 (.ofTokens tokens) = .error fault →
        fault.Arises tokens) ∧
        (∀ calls, List.IsChain (Calls unnamedFile layeredText)
            (⟨.modules 60, .ofTokens tokens⟩ :: calls) → calls.length < 8 * tokens.length) ∧
        ∀ call, Relation.ReflTransGen (Calls unnamedFile layeredText)
            ⟨.modules 60, .ofTokens tokens⟩ call →
          call.Orderly unnamedFile layeredText tokens := by
  have reads : ((Token.scan layeredText).toOption.any fun tokens =>
      decide (tokens.length ≤ 60) &&
        (parseAll unnamedFile layeredText 60 (.ofTokens tokens)).isOk) = true := by
    decide +kernel
  obtain ⟨tokens, scanned, reads⟩ := any_gives reads
  rw [Bool.and_eq_true, decide_eq_true_eq] at reads
  obtain ⟨short, reads⟩ := reads
  cases parsed : parseAll unnamedFile layeredText 60 (.ofTokens tokens) with
  | error fault =>
    rw [parsed] at reads
    cases reads
  | ok modules =>
    exact ⟨tokens, modules, scanned, short, parsed,
      reading_orderly scanned unnamedFile layeredText short⟩

end Module

end PureJs
