/-!
# Numbers of variables and blocks

Variables and blocks of one build are numbered from zero in the order in which they are made,
so two builds that make the same things in the same order number them alike. An expression
holds the number of a variable and nothing else of it; an instruction that opens a scope holds
the numbers of its blocks. The address of an instruction is the block that holds it and its
position there; blocks only grow at their end, so an address never goes stale.
-/
namespace ShaderLoom

/-- A variable of one build. -/
structure VarId where
  /-- Position in the order of creation. -/
  index : Nat
deriving DecidableEq, Repr

/-- A variable as messages write it. -/
def VarId.text (id : VarId) : String := "%" ++ toString id.index

/-- A variable as listings write it. -/
def VarId.label (id : VarId) : String := "VarId(" ++ toString id.index ++ ")"

/-- A block of one build. -/
structure BlockId where
  /-- Position in the order of creation. -/
  index : Nat
deriving DecidableEq, Repr

/-- The main block, which every build starts with. -/
def BlockId.root : BlockId := ⟨0⟩

/-- Whether a block is the main block. -/
def BlockId.isRoot (id : BlockId) : Bool := id.index == 0

/-- A block as listings and messages write it. -/
def BlockId.label (id : BlockId) : String :=
  if id.isRoot then "BlockId::ROOT" else "BlockId(" ++ toString id.index ++ ")"

/-- Where an instruction stands. -/
structure Address where
  /-- The block that holds it. -/
  block : BlockId
  /-- Its position among the instructions of that block. -/
  index : Nat
deriving DecidableEq, Repr

end ShaderLoom
