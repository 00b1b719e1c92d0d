import ShaderLoom.Dialect.Override
import ShaderLoom.Proofs.Numeric

/-!
# Operators without a rank

A dialect may leave the rank of an operator undefined, since the language it stands for is not known
to rank it as others do. What is written then relies neither on the level of such an operator nor on
its grouping: the text is read back as its tree in every language that ranks the other operators as
is common, and these anywhere between the conditional operator and prefixed ones.
-/
namespace ShaderLoom

/-- Every common level is below that of prefixed operators, and none is that of the conditional
operator. -/
theorem BinaryOp.level_of_rank {op : BinaryOp} {level : Nat} (ranked : op.rank = .level level) :
    level ≤ 14 ∧ level ≠ 3 := by
  cases op <;> cases ranked <;> decide

/-- A dialect that leaves the ranks of some binary operators undefined and ranks all else as is
common. Each binary operator has a symbol of its own that can stand between operands, and numbers
are written in decimal. -/
structure Dialect.Unranks (dialect : Dialect) (unranked : Set BinaryOp) : Prop where
  number : ∀ value : Nat, dialect.literal (.int value) = toString value
  unarySymbol : dialect.unarySymbol = UnaryOp.symbol
  unaryRank : dialect.unaryRank = UnaryOp.rank
  undefined : ∀ op ∈ unranked, dialect.binaryRank op = .undefined
  ranked : ∀ op ∉ unranked, dialect.binaryRank op = op.rank
  distinct : Function.Injective dialect.binarySymbol
  operator : ∀ op, isOperator (dialect.binarySymbol op)
  apart : ∀ op, dialect.binarySymbol op ∉ finals

namespace Grammar

variable {g : Grammar} {dialect : Dialect} {unranked : Set BinaryOp}

/-- A language that is spelled as the dialect is. It ranks and groups the operators whose rank is
defined as is common, and the others as it likes, between the conditional operator and prefixed
ones. -/
structure Allows (g : Grammar) (dialect : Dialect) (unranked : Set BinaryOp) : Prop where
  symbol : g.symbol = dialect.binarySymbol
  kept : ∀ op ∉ unranked, op.rank = .level (g.level op) ∧ g.assoc op = op.assoc
  free : ∀ op ∈ unranked, 3 < g.level op ∧ g.level op < 15

/-- Such a language has a symbol of its own for each operator. -/
theorem Allows.distinct (allows : g.Allows dialect unranked) (unranks : dialect.Unranks unranked) :
    Function.Injective g.symbol := by
  rw [allows.symbol]
  exact unranks.distinct

/-- Reading by any such language relies on nothing that the dialect leaves undefined. -/
theorem Allows.fits (allows : g.Allows dialect unranked) (unranks : dialect.Unranks unranked) :
    g.Fits dialect := by
  have defined : ∀ op level, dialect.binaryRank op = .level level →
      op ∉ unranked ∧ op.rank = .level level := by
    intro op level ranked
    by_cases free : op ∈ unranked
    · simp [unranks.undefined op free] at ranked
    · exact ⟨free, by rw [← unranks.ranked op free, ranked]⟩
  have distinct := allows.distinct unranks
  refine ⟨unranks.unarySymbol, unranks.unaryRank, congrFun allows.symbol, ?_, ?_, ?_, ?_, ?_⟩
  · intro op
    rw [allows.symbol]
    exact unranks.apart op
  · intro op
    rw [representative_eq distinct]
    exact ⟨operator?_symbol distinct op, rfl, rfl⟩
  · intro op level ranked
    obtain ⟨kept, common⟩ := defined op level ranked
    obtain ⟨sameLevel, sameAssoc⟩ := allows.kept op kept
    rw [common] at sameLevel
    exact ⟨(Rank.level.inj sameLevel).symm, sameAssoc⟩
  · intro op
    by_cases free : op ∈ unranked
    · have := allows.free op free
      omega
    · exact BinaryOp.level_of_rank (allows.kept op free).1
  · intro op other level ranked otherRanked
    rw [op.assoc_eq, other.assoc_eq, (defined op level ranked).2,
      (defined other level otherRanked).2]

end Grammar

namespace Shader

/-- What is written for an expression of numbers is read back as its tree by every language that a
dialect with operators of undefined rank can stand for. -/
theorem parse_write_unranked (shader : Shader) {dialect : Dialect} {unranked : Set BinaryOp}
    (unranks : dialect.Unranks unranked) (names : Names) {expr : Expr}
    (numeric : expr.Numeric True) :
    ∃ text, (shader.write dialect expr).run names = .ok (text, names) ∧
      ∀ g : Grammar, g.Allows dialect unranked → g.parse text = some expr.tree := by
  have tells : TellsApart dialect.grammar.table := Grammar.tellsApart_table unranks.operator
  obtain ⟨text, written, -⟩ := shader.writeWith_numeric tells unranks.number
    dialect.grammar.symbol_mem_table unranks.unarySymbol unranks.unaryRank (fun _ => "") numeric
  refine ⟨text, written names, fun g allows => ?_⟩
  have operators : ∀ op, isOperator (g.symbol op) := by
    rw [allows.symbol]
    exact unranks.operator
  obtain ⟨again, writtenAgain, -, parsed⟩ := shader.parse_write (allows.fits unranks) unranks.number
    operators (Grammar.representative_eq (allows.distinct unranks)) names numeric
  have sameText : text = again := by
    have both := (written names).symm.trans writtenAgain
    simpa using both
  rw [sameText]
  exact parsed

/-- With a word and no rank for the bitwise exclusive or, `((-1) xor 2) xor 3` is read back also
where this operator binds as tightly as a product and groups to the right. -/
theorem parse_write_unranked_xor :
    let dialect := Dialect.glsl.override
      { binarySymbol := fun op => if op = .bitXor then some "xor" else none
        binaryRank := fun op => if op = .bitXor then some .undefined else none }
    let shader : Shader := ⟨.empty, .empty⟩
    let expr : Expr := .binary .bitXor
      (.binary .bitXor (.unary .neg .before (.int 1)) (.int 2)) (.int 3)
    let tight : Grammar :=
      ⟨dialect.binarySymbol, fun op => if op = .bitXor then 14 else Dialect.glsl.grammar.level op,
        fun op => if op = .bitXor then .right else op.assoc⟩
    dialect.Unranks {.bitXor} ∧ expr.Numeric True ∧ tight.Allows dialect {.bitXor} ∧
      (shader.write dialect expr).run (.start shader) = .ok ("((-1) xor 2) xor 3", .start shader) ∧
      tight.parse "((-1) xor 2) xor 3" = some expr.tree := by
  intro dialect shader expr tight
  have spelled : ∀ op, dialect.binarySymbol op = if op = .bitXor then "xor" else op.symbol := by
    intro op
    by_cases same : op = .bitXor <;> simp [dialect, Dialect.override, same, Dialect.glsl]
  have word : ∀ op : BinaryOp, op.symbol ≠ "xor" := by
    intro op
    cases op <;> decide
  have unranks : dialect.Unranks {.bitXor} := by
    refine ⟨fun _ => rfl, rfl, rfl, ?_, ?_, ?_, ?_, ?_⟩
    · rintro op rfl
      rfl
    · intro op kept
      simp only [Set.mem_singleton_iff] at kept
      simp [dialect, Dialect.override, kept, Dialect.glsl]
    · intro op other same
      rw [spelled, spelled] at same
      split at same <;> split at same
      · simp_all
      · exact absurd same.symm (word other)
      · exact absurd same (word op)
      · exact BinaryOp.symbol_injective same
    · intro op
      cases op <;> decide
    · intro op
      cases op <;> decide
  have numeric : expr.Numeric True :=
    .binary _ (.binary _ (.before trivial _ (.number 1)) (.number 2)) (.number 3)
  have allows : tight.Allows dialect {.bitXor} := by
    refine ⟨rfl, ?_, ?_⟩
    · intro op kept
      simp only [Set.mem_singleton_iff] at kept
      simp only [tight, if_neg kept, and_true]
      exact rank_glsl op
    · rintro op rfl
      decide
  have written : (shader.write dialect expr).run (.start shader) =
      .ok ("((-1) xor 2) xor 3", .start shader) := rfl
  obtain ⟨text, writtenText, parsed⟩ := shader.parse_write_unranked unranks (.start shader) numeric
  have same : text = "((-1) xor 2) xor 3" := by
    have both := writtenText.symm.trans written
    simpa using both
  exact ⟨unranks, numeric, allows, written, same ▸ parsed tight allows⟩

end Shader

end ShaderLoom
