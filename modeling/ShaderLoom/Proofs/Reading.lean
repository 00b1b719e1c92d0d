import Mathlib.Data.Option.Basic
import ShaderLoom.Proofs.Lexing

/-!
# Reading expressions back

A reader for the text of expressions, to hold what is written against. Tokens are read by climbing:
an operand is followed by whatever binds at least as tightly as its place asks for, and the right
operand of an operator is read at the level of the operator, or one above it when the operator
groups to the left.

A grammar says how operators are spelled, how tightly they bind and how they group; all else is the
same for every grammar. Reading goes down one level for every token it has passed, so a bound on
the depth that exceeds the number of tokens is never met (`Grammar.within_stable`), and the
equations of `Grammar.climb` and `Grammar.extend` do not speak of depth.
-/
namespace ShaderLoom

/-- What the text of an expression says: its tree, with names as they are written. -/
inductive Reading where
  | number (value : Nat)
  | name (text : String)
  | binary (op : BinaryOp) (lhs rhs : Reading)
  | unary (op : UnaryOp) (fixity : Fixity) (operand : Reading)
  | ternary (condition yes no : Reading)
  | subscript (object index : Reading)
  | member (object : Reading) (name : String)
  | call (name : String) (args : List Reading)

/-- How binary operators are spelled, how tightly they bind and how they group. -/
structure Grammar where
  symbol : BinaryOp → String
  level : BinaryOp → Nat
  assoc : BinaryOp → Assoc

/-- A token that takes what stands before it as its first operand. -/
inductive Suffix where
  | subscript
  | member
  | after (op : UnaryOp)
  | question
  | binary (op : BinaryOp)
deriving DecidableEq, Repr

/-- Take one given symbol off the front. -/
def expect (text : String) : List Token → Option (List Token)
  | .symbol found :: rest => if found = text then some rest else none
  | _ => none

/-- The symbol that is expected is taken off. -/
@[simp]
theorem expect_symbol (text : String) (rest : List Token) :
    expect text (.symbol text :: rest) = some rest := by
  simp [expect]

/-- An operator that can stand before its operand, by its symbol. -/
def leadingOp? (text : String) : Option UnaryOp := UnaryOp.all.find? (·.symbol == text)

namespace Grammar

/-- The operator a symbol stands for; operators that are spelled alike are read as the first. -/
def operator? (g : Grammar) (text : String) : Option BinaryOp :=
  BinaryOp.all.find? (g.symbol · == text)

/-- What a symbol is after an operand. -/
def suffix? (g : Grammar) (text : String) : Option Suffix :=
  if text = "[" then some .subscript
  else if text = "." then some .member
  else if text = "++" then some (.after .increment)
  else if text = "--" then some (.after .decrement)
  else if text = "?" then some .question
  else (g.operator? text).map .binary

/-- How tightly a suffix holds on to the operand before it. -/
def grip (g : Grammar) : Suffix → Nat
  | .subscript => 16
  | .member => 16
  | .after _ => 16
  | .question => 3
  | .binary op => g.level op

/-- The level at which the right operand of an operator is read. -/
def rightLevel (g : Grammar) (op : BinaryOp) : Nat :=
  match g.assoc op with
  | .left => g.level op + 1
  | .right => g.level op

/-- An operand without what follows it. What stands inside brackets is left to `deep`, and the
arguments of a call to `list`. -/
def operandWith (deep : Nat → List Token → Option (Reading × List Token))
    (list : List Token → Option (List Reading × List Token)) :
    List Token → Option (Reading × List Token)
  | [] => none
  | .number value :: rest => some (.number value, rest)
  | .word text :: rest =>
    match expect "(" rest with
    | none => some (.name text, rest)
    | some inside =>
      match expect ")" inside with
      | some rest => some (.call text [], rest)
      | none => (list inside).map fun (args, rest) => (.call text args, rest)
  | .symbol text :: rest =>
    if text = "(" then do
      let (inner, rest) ← deep 0 rest
      let rest ← expect ")" rest
      some (inner, rest)
    else do
      let op ← leadingOp? text
      let (operand, rest) ← deep 15 rest
      some (.unary op .before operand, rest)

/-- What an operand becomes with a suffix, given what follows the symbol of the suffix. -/
def suffixWith (g : Grammar) (deep : Nat → List Token → Option (Reading × List Token))
    (lhs : Reading) : Suffix → List Token → Option (Reading × List Token)
  | .subscript, tokens => do
    let (index, rest) ← deep 0 tokens
    let rest ← expect "]" rest
    some (.subscript lhs index, rest)
  | .member, tokens =>
    match tokens with
    | .word name :: rest => some (.member lhs name, rest)
    | _ => none
  | .after op, tokens => some (.unary op .after lhs, tokens)
  | .question, tokens => do
    let (yes, rest) ← deep 0 tokens
    let rest ← expect ":" rest
    let (no, rest) ← deep 3 rest
    some (.ternary lhs yes no, rest)
  | .binary op, tokens => do
    let (rhs, rest) ← deep (g.rightLevel op) tokens
    some (.binary op lhs rhs, rest)

/-- The suffix that follows and binds at least as tightly as `min`, and what follows its symbol. -/
def nextSuffix? (g : Grammar) (min : Nat) : List Token → Option (Suffix × List Token)
  | .symbol text :: rest =>
    match g.suffix? text with
    | none => none
    | some suffix => if g.grip suffix < min then none else some (suffix, rest)
  | _ => none

mutual

/-- An operand and all that follows it and binds at least as tightly as `min`, to a depth. -/
def climbWithin (g : Grammar) : Nat → Nat → List Token → Option (Reading × List Token)
  | 0, _, _ => none
  | depth + 1, min, tokens => do
    let (operand, rest) ← operandWith (climbWithin g depth) (listWithin g depth) tokens
    extendWithin g depth min operand rest

/-- What `lhs` becomes with all that follows it and binds at least as tightly as `min`. -/
def extendWithin (g : Grammar) :
    Nat → Nat → Reading → List Token → Option (Reading × List Token)
  | 0, _, _, _ => none
  | depth + 1, min, lhs, tokens =>
    match g.nextSuffix? min tokens with
    | none => some (lhs, tokens)
    | some (suffix, rest) => do
      let (lhs, rest) ← g.suffixWith (climbWithin g depth) lhs suffix rest
      extendWithin g depth min lhs rest

/-- One or more arguments up to the closing parenthesis. -/
def listWithin (g : Grammar) : Nat → List Token → Option (List Reading × List Token)
  | 0, _ => none
  | depth + 1, tokens => do
    let (first, rest) ← climbWithin g depth 0 tokens
    match expect ")" rest with
    | some rest => some ([first], rest)
    | none => do
      let rest ← expect "," rest
      let (others, rest) ← listWithin g depth rest
      some (first :: others, rest)

end

/-- Taking a symbol off leaves fewer tokens. -/
theorem expect_shorter {text : String} {tokens rest : List Token}
    (found : expect text tokens = some rest) : rest.length < tokens.length := by
  unfold expect at found
  split at found
  · split at found
    · obtain rfl := Option.some.inj found
      simp
    · contradiction
  · contradiction

/-- An operand takes at least one token, if what it leaves to others takes some too. -/
theorem operandWith_shorter {deep : Nat → List Token → Option (Reading × List Token)}
    {list : List Token → Option (List Reading × List Token)} {tokens rest : List Token}
    {operand : Reading}
    (deepShorter : ∀ min tokens x rest, deep min tokens = some (x, rest) →
      rest.length < tokens.length)
    (listShorter : ∀ tokens xs rest, list tokens = some (xs, rest) → rest.length < tokens.length)
    (read : operandWith deep list tokens = some (operand, rest)) :
    rest.length < tokens.length := by
  cases tokens with
  | nil => simp [operandWith] at read
  | cons token tail =>
    cases token with
    | number value =>
      simp only [operandWith, Option.some.injEq, Prod.mk.injEq] at read
      simp [← read.2]
    | word text =>
      simp only [operandWith] at read
      split at read
      · simp only [Option.some.injEq, Prod.mk.injEq] at read
        simp [← read.2]
      · rename_i inside opened
        have openedShorter := expect_shorter opened
        split at read
        · rename_i after closed
          have closedShorter := expect_shorter closed
          simp only [Option.some.injEq, Prod.mk.injEq] at read
          simp only [← read.2, List.length_cons]
          omega
        · simp only [Option.map_eq_some_iff, Prod.exists, Prod.mk.injEq] at read
          obtain ⟨args, after, listed, -, rfl⟩ := read
          have := listShorter inside args after listed
          simp only [List.length_cons]
          omega
    | symbol text =>
      simp only [operandWith] at read
      split at read
      · simp only [Option.bind_eq_bind, Option.bind_eq_some_iff, Prod.exists, Option.some.injEq,
          Prod.mk.injEq] at read
        obtain ⟨inner, middle, inside, after, closed, -, rfl⟩ := read
        have insideShorter := deepShorter 0 tail inner middle inside
        have closedShorter := expect_shorter closed
        simp only [List.length_cons]
        omega
      · simp only [Option.bind_eq_bind, Option.bind_eq_some_iff, Prod.exists, Option.some.injEq,
          Prod.mk.injEq] at read
        obtain ⟨op, -, inner, after, inside, -, rfl⟩ := read
        have insideShorter := deepShorter 15 tail inner after inside
        simp only [List.length_cons]
        omega

/-- The symbol of a suffix is one token. -/
theorem nextSuffix?_shorter {g : Grammar} {min : Nat} {tokens rest : List Token} {suffix : Suffix}
    (found : g.nextSuffix? min tokens = some (suffix, rest)) :
    rest.length + 1 = tokens.length := by
  unfold nextSuffix? at found
  split at found
  · split at found
    · contradiction
    · split at found
      · contradiction
      · simp only [Option.some.injEq, Prod.mk.injEq] at found
        simp [found.2]
  · contradiction

/-- A suffix gives no tokens back. -/
theorem suffixWith_shorter {g : Grammar}
    {deep : Nat → List Token → Option (Reading × List Token)} {lhs extended : Reading}
    {suffix : Suffix} {tokens rest : List Token}
    (deepShorter : ∀ min tokens x rest, deep min tokens = some (x, rest) →
      rest.length < tokens.length)
    (read : g.suffixWith deep lhs suffix tokens = some (extended, rest)) :
    rest.length ≤ tokens.length := by
  cases suffix with
  | subscript =>
    simp only [suffixWith, Option.bind_eq_bind, Option.bind_eq_some_iff, Prod.exists,
      Option.some.injEq, Prod.mk.injEq] at read
    obtain ⟨index, middle, inside, after, closed, -, rfl⟩ := read
    have := deepShorter _ _ _ _ inside
    have := expect_shorter closed
    omega
  | member =>
    simp only [suffixWith] at read
    split at read
    · simp only [Option.some.injEq, Prod.mk.injEq] at read
      simp [read.2]
    · contradiction
  | after op =>
    simp only [suffixWith, Option.some.injEq, Prod.mk.injEq] at read
    simp [read.2]
  | question =>
    simp only [suffixWith, Option.bind_eq_bind, Option.bind_eq_some_iff, Prod.exists,
      Option.some.injEq, Prod.mk.injEq] at read
    obtain ⟨yes, middle, inside, after, colon, no, last, readNo, -, rfl⟩ := read
    have := deepShorter _ _ _ _ inside
    have := expect_shorter colon
    have := deepShorter _ _ _ _ readNo
    omega
  | binary op =>
    simp only [suffixWith, Option.bind_eq_bind, Option.bind_eq_some_iff, Prod.exists,
      Option.some.injEq, Prod.mk.injEq] at read
    obtain ⟨rhs, last, inside, -, rfl⟩ := read
    have := deepShorter _ _ _ _ inside
    omega

/-- Reading never gives tokens back: climbing and lists take some, extending takes none or some. -/
theorem within_shorter (g : Grammar) (depth : Nat) :
    (∀ min tokens x rest, g.climbWithin depth min tokens = some (x, rest) →
      rest.length < tokens.length) ∧
    (∀ min lhs tokens x rest, g.extendWithin depth min lhs tokens = some (x, rest) →
      rest.length ≤ tokens.length) ∧
    (∀ tokens xs rest, g.listWithin depth tokens = some (xs, rest) →
      rest.length < tokens.length) := by
  induction depth with
  | zero => simp [climbWithin, extendWithin, listWithin]
  | succ depth ih =>
    obtain ⟨climbShorter, extendShorter, listShorter⟩ := ih
    refine ⟨?_, ?_, ?_⟩
    · intro min tokens x rest read
      simp only [climbWithin, Option.bind_eq_bind, Option.bind_eq_some_iff, Prod.exists] at read
      obtain ⟨operand, middle, first, extended⟩ := read
      have firstShorter := operandWith_shorter climbShorter listShorter first
      have := extendShorter min operand middle x rest extended
      omega
    · intro min lhs tokens x rest read
      simp only [extendWithin] at read
      split at read
      · simp only [Option.some.injEq, Prod.mk.injEq] at read
        simp [read.2]
      · rename_i suffix after found
        simp only [Option.bind_eq_bind, Option.bind_eq_some_iff, Prod.exists] at read
        obtain ⟨longer, middle, suffixed, extended⟩ := read
        have := nextSuffix?_shorter found
        have := suffixWith_shorter climbShorter suffixed
        have := extendShorter min longer middle x rest extended
        omega
    · intro tokens xs rest read
      simp only [listWithin, Option.bind_eq_bind, Option.bind_eq_some_iff, Prod.exists] at read
      obtain ⟨first, middle, readFirst, read⟩ := read
      have firstShorter := climbShorter _ _ _ _ readFirst
      split at read
      · rename_i after closed
        have := expect_shorter closed
        simp only [Option.some.injEq, Prod.mk.injEq] at read
        rw [← read.2]
        omega
      · simp only [Option.bind_eq_some_iff, Prod.exists, Option.some.injEq, Prod.mk.injEq] at read
        obtain ⟨after, comma, others, last, listed, -, rfl⟩ := read
        have := expect_shorter comma
        have := listShorter _ _ _ listed
        omega

/-- An operand is read alike by two readers that agree on shorter texts. -/
theorem operandWith_congr {deep deep' : Nat → List Token → Option (Reading × List Token)}
    {list list' : List Token → Option (List Reading × List Token)} {tokens : List Token}
    (sameDeep : ∀ min shorter, shorter.length < tokens.length →
      deep min shorter = deep' min shorter)
    (sameList : ∀ shorter, shorter.length + 1 < tokens.length → list shorter = list' shorter) :
    operandWith deep list tokens = operandWith deep' list' tokens := by
  cases tokens with
  | nil => rfl
  | cons token rest =>
    cases token with
    | number value => rfl
    | word text =>
      simp only [operandWith]
      split
      · rfl
      · rename_i inside opened
        have openedShorter := expect_shorter opened
        rw [sameList inside (by simp only [List.length_cons]; omega)]
    | symbol text => simp only [operandWith, sameDeep _ rest (by simp)]

/-- A suffix is read alike by two readers that agree on what follows its symbol and on shorter
texts. -/
theorem suffixWith_congr {g : Grammar}
    {deep deep' : Nat → List Token → Option (Reading × List Token)} {lhs : Reading}
    {suffix : Suffix} {tokens : List Token}
    (deepShorter : ∀ min tokens x rest, deep' min tokens = some (x, rest) →
      rest.length < tokens.length)
    (sameDeep : ∀ min shorter, shorter.length ≤ tokens.length →
      deep min shorter = deep' min shorter) :
    g.suffixWith deep lhs suffix tokens = g.suffixWith deep' lhs suffix tokens := by
  cases suffix with
  | subscript => simp only [suffixWith, sameDeep 0 tokens (Nat.le_refl _)]
  | member => rfl
  | after op => rfl
  | question =>
    simp only [suffixWith]
    apply Option.bind_congr' (sameDeep 0 tokens (Nat.le_refl _))
    rintro ⟨yes, middle⟩ inside
    have := deepShorter _ _ _ _ inside
    apply Option.bind_congr' rfl
    intro after colon
    have : after.length < middle.length := expect_shorter colon
    rw [sameDeep 3 after (by omega)]
  | binary op => simp only [suffixWith, sameDeep _ tokens (Nat.le_refl _)]

/-- Depths beyond the number of tokens all read alike. -/
theorem within_stable (g : Grammar) (depth depth' : Nat) :
    (∀ min tokens, tokens.length < depth → tokens.length < depth' →
      g.climbWithin depth min tokens = g.climbWithin depth' min tokens) ∧
    (∀ min lhs tokens, tokens.length < depth → tokens.length < depth' →
      g.extendWithin depth min lhs tokens = g.extendWithin depth' min lhs tokens) ∧
    (∀ tokens, tokens.length + 1 < depth → tokens.length + 1 < depth' →
      g.listWithin depth tokens = g.listWithin depth' tokens) := by
  induction depth generalizing depth' with
  | zero => simp
  | succ depth ih =>
    cases depth' with
    | zero => simp
    | succ depth' =>
      obtain ⟨sameClimb, sameExtend, sameList⟩ := ih depth'
      obtain ⟨climbShorter, -, listShorter⟩ := g.within_shorter depth'
      refine ⟨?_, ?_, ?_⟩
      · intro min tokens small small'
        simp only [climbWithin, Option.bind_eq_bind]
        apply Option.bind_congr'
        · exact operandWith_congr
            (fun min shorter less => sameClimb min shorter (by omega) (by omega))
            (fun shorter less => sameList shorter (by omega) (by omega))
        · rintro ⟨operand, rest⟩ first
          have firstShorter := operandWith_shorter climbShorter listShorter first
          exact sameExtend min operand rest (by omega) (by omega)
      · intro min lhs tokens small small'
        simp only [extendWithin]
        split
        · rfl
        · rename_i suffix after found
          have := nextSuffix?_shorter found
          apply Option.bind_congr'
          · exact suffixWith_congr climbShorter
              (fun min shorter less => sameClimb min shorter (by omega) (by omega))
          · rintro ⟨longer, rest⟩ suffixed
            have := suffixWith_shorter climbShorter suffixed
            exact sameExtend min longer rest (by omega) (by omega)
      · intro tokens small small'
        simp only [listWithin, Option.bind_eq_bind]
        apply Option.bind_congr' (sameClimb 0 tokens (by omega) (by omega))
        rintro ⟨first, middle⟩ readFirst
        have := climbShorter _ _ _ _ readFirst
        simp only
        split
        · rfl
        · apply Option.bind_congr' rfl
          intro after comma
          have : after.length < middle.length := expect_shorter comma
          rw [sameList after (by omega) (by omega)]

/-- An operand and all that follows it and binds at least as tightly as `min`. -/
def climb (g : Grammar) (min : Nat) (tokens : List Token) : Option (Reading × List Token) :=
  g.climbWithin (tokens.length + 1) min tokens

/-- What `lhs` becomes with all that follows it and binds at least as tightly as `min`. -/
def extend (g : Grammar) (min : Nat) (lhs : Reading) (tokens : List Token) :
    Option (Reading × List Token) :=
  g.extendWithin (tokens.length + 1) min lhs tokens

/-- One or more arguments up to the closing parenthesis. -/
def list (g : Grammar) (tokens : List Token) : Option (List Reading × List Token) :=
  g.listWithin (tokens.length + 2) tokens

/-- The tree that a text says, if all of it belongs to one expression. -/
def read (g : Grammar) (text : String) : Option Reading := do
  let tokens ← lex text.toList
  match g.climb 0 tokens with
  | some (tree, []) => some tree
  | _ => none

/-- Climbing at any depth beyond the number of tokens is climbing. -/
theorem climbWithin_eq (g : Grammar) {depth min : Nat} {tokens : List Token}
    (small : tokens.length < depth) : g.climbWithin depth min tokens = g.climb min tokens :=
  (g.within_stable depth (tokens.length + 1)).1 min tokens small (by omega)

/-- Extending at any depth beyond the number of tokens is extending. -/
theorem extendWithin_eq (g : Grammar) {depth min : Nat} {lhs : Reading} {tokens : List Token}
    (small : tokens.length < depth) :
    g.extendWithin depth min lhs tokens = g.extend min lhs tokens :=
  (g.within_stable depth (tokens.length + 1)).2.1 min lhs tokens small (by omega)

/-- Listing at any depth well beyond the number of tokens is listing. -/
theorem listWithin_eq (g : Grammar) {depth : Nat} {tokens : List Token}
    (small : tokens.length + 1 < depth) : g.listWithin depth tokens = g.list tokens :=
  (g.within_stable depth (tokens.length + 2)).2.2 tokens small (by omega)

/-- Climbing reads an operand and extends it. -/
theorem climb_eq (g : Grammar) (min : Nat) (tokens : List Token) :
    g.climb min tokens =
      (operandWith g.climb g.list tokens).bind fun (operand, rest) =>
        g.extend min operand rest := by
  obtain ⟨climbShorter, -, listShorter⟩ := g.within_shorter tokens.length
  unfold climb
  simp only [climbWithin, Option.bind_eq_bind]
  apply Option.bind_congr'
  · exact operandWith_congr (fun min shorter less => g.climbWithin_eq less)
      (fun shorter less => g.listWithin_eq less)
  · rintro ⟨operand, rest⟩ first
    have same : operandWith (g.climbWithin tokens.length) (g.listWithin tokens.length) tokens =
        operandWith g.climb g.list tokens :=
      operandWith_congr (fun min shorter less => g.climbWithin_eq less)
        (fun shorter less => g.listWithin_eq less)
    have firstShorter := operandWith_shorter climbShorter listShorter (same.trans first)
    exact g.extendWithin_eq firstShorter

/-- Extending takes the next suffix and goes on, or stops. -/
theorem extend_eq (g : Grammar) (min : Nat) (lhs : Reading) (tokens : List Token) :
    g.extend min lhs tokens =
      match g.nextSuffix? min tokens with
      | none => some (lhs, tokens)
      | some (suffix, rest) =>
        (g.suffixWith g.climb lhs suffix rest).bind fun (lhs, rest) => g.extend min lhs rest := by
  obtain ⟨climbShorter, -, -⟩ := g.within_shorter tokens.length
  rw [extend, extendWithin]
  split
  · rfl
  · rename_i suffix after found
    have afterShorter := nextSuffix?_shorter found
    have same : g.suffixWith (g.climbWithin tokens.length) lhs suffix after =
        g.suffixWith g.climb lhs suffix after :=
      suffixWith_congr (fun _ tokens => (g.within_shorter (tokens.length + 1)).1 _ tokens)
        (fun min shorter less => g.climbWithin_eq (by omega))
    apply Option.bind_congr' same
    rintro ⟨longer, rest⟩ suffixed
    have restShorter := suffixWith_shorter climbShorter (same.trans suffixed)
    exact g.extendWithin_eq (by omega)

/-- A list is one argument, or one argument, a comma and a list. -/
theorem list_eq (g : Grammar) (tokens : List Token) :
    g.list tokens =
      (g.climb 0 tokens).bind fun (first, rest) =>
        match expect ")" rest with
        | some rest => some ([first], rest)
        | none =>
          (expect "," rest).bind fun rest =>
            (g.list rest).map fun (others, rest) => (first :: others, rest) := by
  rw [list, listWithin]
  apply Option.bind_congr' (g.climbWithin_eq (by omega))
  rintro ⟨first, middle⟩ readFirst
  have firstShorter := (g.within_shorter (tokens.length + 1)).1 _ _ _ _ readFirst
  simp only
  split
  · rfl
  · apply Option.bind_congr' rfl
    intro after comma
    have : after.length < middle.length := expect_shorter comma
    rw [g.listWithin_eq (by omega), Option.map_eq_bind]
    rfl

end Grammar

end ShaderLoom
