import ShaderLoom.Build.Call
import ShaderLoom.Build.Scoped
import ShaderLoom.Dialect.Override
import ShaderLoom.Dialect.Standard
import ShaderLoom.Text.Shader
import ShaderLoom.Command
import ShaderLoom.Main
import ShaderLoom.Proofs.Reading
import ShaderLoom.Proofs.Spelling
import ShaderLoom.Proofs.ReadBack
import ShaderLoom.Proofs.Cursor
import ShaderLoom.Proofs.Footprint
import ShaderLoom.Proofs.Playing
import ShaderLoom.Proofs.Rebuild
import ShaderLoom.Proofs.Freshness
import ShaderLoom.Proofs.Once
import ShaderLoom.Proofs.Agreement
import ShaderLoom.Proofs.Poisoning
import ShaderLoom.Proofs.Balance
import ShaderLoom.Proofs.Signatures
import ShaderLoom.Proofs.Addresses
import ShaderLoom.Proofs.Placement
import ShaderLoom.Proofs.Deferral
import ShaderLoom.Proofs.Substitution
import ShaderLoom.Proofs.Parentheses
import ShaderLoom.Proofs.Unranked
import ShaderLoom.Proofs.HeaderClauses
import ShaderLoom.Proofs.Numbering
import ShaderLoom.Proofs.HeaderTypes
import ShaderLoom.Proofs.TypeNames
import ShaderLoom.Proofs.Indentation
import ShaderLoom.Proofs.Vanishing
import ShaderLoom.Proofs.Arguments
import ShaderLoom.Proofs.Lookahead
import ShaderLoom.Proofs.Descent
import ShaderLoom.Proofs.FloatTexts
