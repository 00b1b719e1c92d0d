import Mathlib.Data.List.TakeWhile
import ShaderLoom.Dialect.Standard
import ShaderLoom.Proofs.Lexing

/-!
# Reading types back

A GLSL type is read as the name of what its arrays hold, followed by the lengths of the arrays in
brackets, the outermost array first (`readTy`). In a declaration the lengths behind the declared
name come before those behind the type (`readDeclaration`).

Names of types are written the other way round: the innermost length stands first. So the type that
is read has its lengths in reverse, and a declared one all but its outermost
(`readTy_glslName`, `readDeclaration_declarator`). Both are what was written exactly if reversing
changes nothing (`read_back_iff_palindrome`): a type that is an array of arrays of another length is
read as another one, and a declared type can be from the third dimension on.
-/
namespace ShaderLoom

namespace Ty

/-- What the arrays of a type hold in the end. -/
def element : Ty → Ty
  | .array elem _ => elem.element
  | other => other

/-- The lengths of the arrays of a type, the outermost first. -/
def extents : Ty → List (Option Nat)
  | .array elem length => length :: elem.extents
  | _ => []

/-- Arrays in arrays that hold a type, the first of the given lengths being the outermost. -/
def arrayOf (ty : Ty) (lengths : List (Option Nat)) : Ty :=
  lengths.foldr (fun length elem => .array elem length) ty

/-- A type is arrays of its lengths that hold its element. -/
theorem arrayOf_extents (ty : Ty) : ty.element.arrayOf ty.extents = ty := by
  induction ty with
  | array elem length ih => exact congrArg (Ty.array · length) ih
  | _ => rfl

/-- An element is no array. -/
theorem extents_element (ty : Ty) : ty.element.extents = [] := by
  induction ty with
  | array elem length ih => exact ih
  | _ => rfl

/-- Arrays of a type have the given lengths, and then its own. -/
theorem extents_arrayOf (ty : Ty) (lengths : List (Option Nat)) :
    (ty.arrayOf lengths).extents = lengths ++ ty.extents := by
  induction lengths with
  | nil => rfl
  | cons length lengths ih => exact congrArg (length :: ·) ih

/-- Arrays of other lengths than a type has are another type. -/
theorem arrayOf_eq_iff (ty : Ty) (lengths : List (Option Nat)) :
    ty.element.arrayOf lengths = ty ↔ lengths = ty.extents := by
  constructor
  · intro same
    have read := congrArg extents same
    rwa [extents_arrayOf, extents_element, List.append_nil] at read
  · rintro rfl
    exact ty.arrayOf_extents

end Ty

section Reading

/-- The number that a text is, if it is one as numbers are written. -/
def number? (chars : List Char) : Option Nat :=
  let value := Nat.ofDigitChars 10 chars 0
  if (toString value).toList = chars then some value else none

/-- The columns and rows that a text gives; one number is both. -/
def sizes? (chars : List Char) : Option (Nat × Nat) :=
  match chars.dropWhile Char.isDigit with
  | [] => (fun size => (size, size)) <$> number? chars
  | 'x' :: rows => do
    let cols ← number? (chars.takeWhile Char.isDigit)
    let rows ← number? rows
    some (cols, rows)
  | _ => none

/-- The vector or matrix that a name stands for when the letter of its components is taken off. -/
def shaped? (kind : Scalar) : List Char → Option Ty
  | 'v' :: 'e' :: 'c' :: size => (Ty.vector kind ·) <$> number? size
  | 'm' :: 'a' :: 't' :: sizes => (fun size => Ty.matrix kind size.1 size.2) <$> sizes? sizes
  | _ => none

/-- The types whose names hold no number that is a size. -/
def unsizedNames : List (String × Ty) :=
  [("void", .void), ("bool", .scalar .bool), ("int", .scalar .int), ("uint", .scalar .uint),
   ("float", .scalar .float), ("double", .scalar .double), ("sampler1D", .sampler .d1),
   ("sampler2D", .sampler .d2), ("sampler3D", .sampler .d3), ("samplerCube", .sampler .cube),
   ("sampler2DArray", .sampler .d2Array), ("sampler2DShadow", .sampler .d2Shadow)]

/-- The type that a name stands for in GLSL itself; vectors and matrices may be of any size. -/
def builtinTy? (name : List Char) : Option Ty :=
  (match name with
    | 'b' :: rest => shaped? .bool rest
    | 'i' :: rest => shaped? .int rest
    | 'u' :: rest => shaped? .uint rest
    | 'd' :: rest => shaped? .double rest
    | _ => shaped? .float name) <|> unsizedNames.lookup (String.ofList name)

/-- The type that a name stands for: one of GLSL itself, or else a struct. -/
def readElement (name : List Char) : Option Ty :=
  builtinTy? name <|>
    if isWord (String.ofList name) then some (.struct (String.ofList name)) else none

/-- The lengths that groups of brackets hold, in order; `inside` is what was read of a group that is
still open. -/
def readExtents : Option (List Char) → List Char → Option (List (Option Nat))
  | none, [] => some []
  | none, '[' :: rest => readExtents (some []) rest
  | some inside, ']' :: rest => do
    let length ← if inside = [] then some none else some <$> number? inside
    let lengths ← readExtents none rest
    some (length :: lengths)
  | some inside, c :: rest => readExtents (some (inside ++ [c])) rest
  | _, _ => none

/-- A name and the lengths in the brackets behind it. -/
def readBracketed (chars : List Char) : Option (List Char × List (Option Nat)) := do
  let lengths ← readExtents none (chars.dropWhile (· != '['))
  some (chars.takeWhile (· != '['), lengths)

/-- The type that a text spells: the name of an element, and lengths of which the first is that of
the outermost array. -/
def readTy (text : String) : Option Ty := do
  let (name, lengths) ← readBracketed text.toList
  let element ← readElement name
  some (element.arrayOf lengths)

/-- The type and the name that a declaration spells: a type, a blank and a name. Lengths behind the
name belong to arrays around those of the type. -/
def readDeclaration (text : String) : Option (Ty × String) := do
  let (typeName, inner) ← readBracketed (text.toList.takeWhile (· != ' '))
  let (name, outer) ← readBracketed ((text.toList.dropWhile (· != ' ')).drop 1)
  let element ← readElement typeName
  if isWord (String.ofList name) then some (element.arrayOf (outer ++ inner), String.ofList name)
  else none

end Reading

/-- Whether the struct that a type is made of, if any, has a name that is a word and stands for no
type of GLSL itself. -/
def Ty.Named : Ty → Prop
  | .array elem _ => elem.Named
  | .struct name => isWord name ∧ builtinTy? name.toList = none
  | _ => True

/-- A number is read as what was written. -/
theorem number?_toString (n : Nat) : number? (toString n).toList = some n := by
  have value : Nat.ofDigitChars 10 (toString n).toList 0 = n := by
    rw [Nat.toString_eq_repr, Nat.toList_repr]
    exact Nat.ofDigitChars_ten_toDigits
  rw [number?, value]
  exact if_pos rfl

/-- Columns and rows are read as they were written, whether they are the same or not. -/
theorem sizes?_written (cols rows : Nat) :
    sizes? (toString cols ++ if cols = rows then "" else "x" ++ toString rows).toList =
      some (cols, rows) := by
  have digits : ∀ c ∈ (toString cols).toList, c.isDigit := fun c => isDigit_of_mem_toString
  split
  case isTrue square =>
    have dropped : (toString cols).toList.dropWhile Char.isDigit = [] :=
      List.dropWhile_eq_nil_iff.mpr digits
    rw [String.append_empty, sizes?, dropped, number?_toString, square]
    rfl
  case isFalse oblong =>
    have dropped : (toString cols ++ ("x" ++ toString rows)).toList.dropWhile Char.isDigit =
        'x' :: (toString rows).toList := by
      rw [String.toList_append, List.dropWhile_append_of_pos digits, String.toList_append]
      rfl
    have taken : (toString cols ++ ("x" ++ toString rows)).toList.takeWhile Char.isDigit =
        (toString cols).toList := by
      rw [String.toList_append, List.takeWhile_append_of_pos digits, String.toList_append]
      exact List.append_nil _
    rw [sizes?, dropped, taken]
    show (do
      let cols ← number? (toString cols).toList
      let rows ← number? (toString rows).toList
      some (cols, rows)) = _
    rw [number?_toString, number?_toString]
    rfl

/-- A vector is read as what was written. -/
theorem shaped?_vector (kind : Scalar) (size : Nat) :
    shaped? kind ("vec" ++ toString size).toList = some (.vector kind size) := by
  rw [String.toList_append]
  show (Ty.vector kind ·) <$> number? (toString size).toList = _
  rw [number?_toString]
  rfl

/-- A matrix is read as what was written. -/
theorem shaped?_matrix (kind : Scalar) (cols rows : Nat) :
    shaped? kind
      ("mat" ++ (toString cols ++ if cols = rows then "" else "x" ++ toString rows)).toList =
      some (.matrix kind cols rows) := by
  rw [String.toList_append]
  show (fun size => Ty.matrix kind size.1 size.2) <$> sizes? (toString cols ++ _).toList = _
  rw [sizes?_written]
  rfl

/-- What is read behind the letter of a kind of components is of that kind. -/
theorem builtinTy?_of_shaped? {kind : Scalar} {name : String} {ty : Ty}
    (shaped : shaped? kind name.toList = some ty) :
    builtinTy? (kind.vectorLetter ++ name).toList = some ty := by
  rw [String.toList_append]
  cases kind with
  | float =>
    have opens : ∃ rest, name.toList = 'v' :: rest ∨ name.toList = 'm' :: rest := by
      unfold shaped? at shaped
      split at shaped
      case h_1 spelled => exact ⟨_, .inl spelled⟩
      case h_2 spelled => exact ⟨_, .inr spelled⟩
      case h_3 => cases shaped
    show builtinTy? name.toList = some ty
    obtain ⟨rest, starts | starts⟩ := opens
    · rw [starts] at shaped ⊢
      show (shaped? .float ('v' :: rest) <|> _) = _
      rw [shaped]
      rfl
    · rw [starts] at shaped ⊢
      show (shaped? .float ('m' :: rest) <|> _) = _
      rw [shaped]
      rfl
  | bool | int | uint | double =>
    show (shaped? _ name.toList <|> _) = _
    rw [shaped]
    rfl

/-- The name of an element is read as the element. -/
theorem readElement_glslName {ty : Ty} (named : ty.Named) :
    readElement ty.element.glslName.toList = some ty.element := by
  have builtin : ∀ {name : List Char} {ty : Ty}, builtinTy? name = some ty →
      readElement name = some ty := by
    intro name ty isBuiltin
    rw [readElement, isBuiltin]
    rfl
  induction ty with
  | array elem length ih => exact ih named
  | void => rfl
  | scalar kind => cases kind <;> rfl
  | sampler dim => cases dim <;> rfl
  | vector kind size =>
    apply builtin
    simp only [Ty.element, Ty.glslName, String.append_assoc]
    exact builtinTy?_of_shaped? (shaped?_vector kind size)
  | matrix kind cols rows =>
    apply builtin
    simp only [Ty.element, Ty.glslName, String.append_assoc]
    exact builtinTy?_of_shaped? (shaped?_matrix kind cols rows)
  | struct name =>
    show readElement name.toList = some (.struct name)
    rw [readElement, named.2, String.ofList_toList, if_pos named.1]
    rfl

/-- A word is made of the characters of words. -/
theorem isWordPart_of_mem_word {name : String} (word : isWord name) :
    ∀ c ∈ name.toList, isWordPart c := by
  unfold isWord at word
  split at word
  case h_1 => cases word
  case h_2 first rest spelled =>
    rw [Bool.and_eq_true, List.all_eq_true] at word
    rw [spelled, List.forall_mem_cons]
    exact ⟨isWordPart_of_isWordStart word.1, word.2⟩

/-- The name of an element is made of the characters of words. -/
theorem isWordPart_of_mem_glslName {ty : Ty} (named : ty.Named) :
    ∀ c ∈ ty.element.glslName.toList, isWordPart c := by
  have digits : ∀ {n : Nat}, ∀ c ∈ (toString n).toList, isWordPart c := fun c mem =>
    isWordPart_of_isDigit (isDigit_of_mem_toString mem)
  have parts : ∀ {text : String}, text.toList.all isWordPart → ∀ c ∈ text.toList, isWordPart c :=
    List.all_eq_true.mp
  have letter : ∀ kind : Scalar, ∀ c ∈ kind.vectorLetter.toList, isWordPart c := by
    intro kind
    cases kind <;> exact parts (by decide)
  induction ty with
  | array elem length ih => exact ih named
  | void => exact parts (by decide)
  | scalar kind => cases kind <;> exact parts (by decide)
  | sampler dim => cases dim <;> exact parts (by decide)
  | vector kind size =>
    simp only [Ty.element, Ty.glslName, String.toList_append, List.forall_mem_append]
    exact ⟨⟨letter kind, parts (by decide)⟩, digits⟩
  | matrix kind cols rows =>
    simp only [Ty.element, Ty.glslName, String.toList_append, List.forall_mem_append]
    refine ⟨⟨⟨letter kind, parts (by decide)⟩, digits⟩, ?_⟩
    split
    · exact fun _ mem => absurd mem List.not_mem_nil
    · rw [String.toList_append, List.forall_mem_append]
      exact ⟨parts (by decide), digits⟩
  | struct name => exact isWordPart_of_mem_word named.1

/-- The brackets of arrays, the first of the given lengths in the first ones. -/
def brackets (lengths : List (Option Nat)) : List Char :=
  lengths.flatMap fun length => (extent length).toList

/-- The name of a type is that of its element with all lengths behind it, the innermost first. -/
theorem glslName_eq (ty : Ty) :
    ty.glslName.toList = ty.element.glslName.toList ++ brackets ty.extents.reverse := by
  induction ty with
  | array elem length ih =>
    rw [Ty.glslName, String.toList_append, ih, Ty.extents, List.reverse_cons, brackets, brackets,
      List.flatMap_append, List.append_assoc]
    simp only [Ty.element, List.flatMap_cons, List.flatMap_nil, List.append_nil]
  | _ => exact (List.append_nil _).symm

/-- What stands inside brackets is read up to the closing one. -/
theorem readExtents_inside {inside more rest : List Char} (apart : ∀ c ∈ more, c ≠ ']') :
    readExtents (some inside) (more ++ rest) = readExtents (some (inside ++ more)) rest := by
  induction more generalizing inside with
  | nil => rw [List.append_nil, List.nil_append]
  | cons c more ih =>
    rw [List.forall_mem_cons] at apart
    rw [List.cons_append, readExtents, ih apart.2, List.append_assoc, List.singleton_append]
    intro closes
    exact absurd closes apart.1

/-- Lengths are read as they were written. -/
theorem readExtents_brackets (lengths : List (Option Nat)) :
    readExtents none (brackets lengths) = some lengths := by
  induction lengths with
  | nil => rfl
  | cons length lengths ih =>
    rw [brackets, List.flatMap_cons]
    cases length with
    | none =>
      show (do
        let lengths ← readExtents none (brackets lengths)
        some (none :: lengths)) = _
      rw [ih]
      rfl
    | some length =>
      have digits : ∀ c ∈ (toString length).toList, c ≠ ']' := by
        rintro c mem rfl
        exact absurd (isDigit_of_mem_toString mem) (by decide)
      have some' : (toString length).toList ≠ [] := by
        rw [Nat.toString_eq_repr, Nat.toList_repr]
        exact Nat.toDigits_ne_nil
      have spelled : (extent (some length)).toList ++ brackets lengths =
          '[' :: ((toString length).toList ++ ']' :: brackets lengths) := by
        rw [extent, String.toList_append, String.toList_append]
        simp
      show readExtents none ((extent (some length)).toList ++ brackets lengths) = _
      rw [spelled, readExtents, readExtents_inside digits, List.nil_append, readExtents,
        if_neg some', number?_toString, ih]
      rfl

/-- A name made of the characters of words ends where brackets start. -/
theorem readBracketed_brackets {name : List Char} (word : ∀ c ∈ name, isWordPart c)
    (lengths : List (Option Nat)) :
    readBracketed (name ++ brackets lengths) = some (name, lengths) := by
  have apart : ∀ c ∈ name, (c != '[') = true := by
    intro c mem
    rw [bne_iff_ne]
    rintro rfl
    exact absurd (word _ mem) (by decide)
  have opens : ∀ lengths, (brackets lengths).takeWhile (· != '[') = [] ∧
      (brackets lengths).dropWhile (· != '[') = brackets lengths := by
    intro lengths
    cases lengths with
    | nil => exact ⟨rfl, rfl⟩
    | cons length lengths => cases length <;> simp [brackets, extent]
  obtain ⟨taken, dropped⟩ := opens lengths
  rw [readBracketed, List.takeWhile_append_of_pos apart, List.dropWhile_append_of_pos apart, taken,
    dropped, readExtents_brackets, List.append_nil]
  rfl

/-- A type is read with its lengths in reverse. -/
theorem readTy_glslName {ty : Ty} (named : ty.Named) :
    readTy ty.glslName = some (ty.element.arrayOf ty.extents.reverse) := by
  rw [readTy, glslName_eq, readBracketed_brackets (isWordPart_of_mem_glslName named)]
  show (do
    let element ← readElement ty.element.glslName.toList
    some (element.arrayOf ty.extents.reverse)) = _
  rw [readElement_glslName named]
  rfl

/-- No blank stands in brackets. -/
theorem ne_blank_of_mem_brackets {lengths : List (Option Nat)} {c : Char}
    (mem : c ∈ brackets lengths) : c ≠ ' ' := by
  rintro rfl
  obtain ⟨length, -, mem⟩ := List.mem_flatMap.mp mem
  cases length with
  | none => exact absurd mem (by decide)
  | some length =>
    rw [extent, String.toList_append, String.toList_append, List.mem_append, List.mem_append] at mem
    obtain (opening | digit) | closing := mem
    · exact absurd opening (by decide)
    · exact absurd (isDigit_of_mem_toString digit) (by decide)
    · exact absurd closing (by decide)

/-- A type with some lengths behind it and the others behind the declared name is read as an array of
the others around those. -/
theorem readDeclaration_spelled {ty : Ty} (named : ty.Named) {name : String} (word : isWord name)
    (inner outer : List (Option Nat)) {text : String}
    (spelled : text.toList = ty.element.glslName.toList ++ brackets inner ++
      ' ' :: (name.toList ++ brackets outer)) :
    readDeclaration text = some (ty.element.arrayOf (outer ++ inner), name) := by
  have parts := isWordPart_of_mem_glslName named
  have nameParts := isWordPart_of_mem_word word
  have unbroken : ∀ c ∈ ty.element.glslName.toList ++ brackets inner, (c != ' ') = true := by
    intro c mem
    rw [bne_iff_ne]
    obtain inName | inBrackets := List.mem_append.mp mem
    · rintro rfl
      exact absurd (parts _ inName) (by decide)
    · exact ne_blank_of_mem_brackets inBrackets
  have before : text.toList.takeWhile (· != ' ') =
      ty.element.glslName.toList ++ brackets inner := by
    rw [spelled, List.takeWhile_append_of_pos unbroken]
    exact List.append_nil _
  have behind : (text.toList.dropWhile (· != ' ')).drop 1 = name.toList ++ brackets outer := by
    rw [spelled, List.dropWhile_append_of_pos unbroken]
    rfl
  rw [readDeclaration, before, behind, readBracketed_brackets parts,
    readBracketed_brackets nameParts]
  show (do
    let element ← readElement ty.element.glslName.toList
    if isWord (String.ofList name.toList) then
      some (element.arrayOf (outer ++ inner), String.ofList name.toList)
    else none) = _
  rw [readElement_glslName named, String.ofList_toList]
  exact if_pos word

/-- A declared type is read with all its lengths but the outermost in reverse. -/
theorem readDeclaration_declarator {ty : Ty} (named : ty.Named) {name : String}
    (word : isWord name) :
    readDeclaration (Dialect.glsl.declarator ty name) =
      some (ty.element.arrayOf (ty.extents.take 1 ++ ty.extents.tail.reverse), name) := by
  cases ty with
  | array elem length =>
    have elemNamed : elem.Named := named
    refine readDeclaration_spelled elemNamed word elem.extents.reverse [length] ?_
    show (elem.glslName ++ " " ++ name ++ extent length).toList = _
    rw [String.toList_append, String.toList_append, String.toList_append, glslName_eq elem]
    simp only [brackets, List.flatMap_cons, List.flatMap_nil, List.append_nil, List.append_assoc]
    rfl
  | _ =>
    refine readDeclaration_spelled named word [] [] ?_
    simp [Dialect.glsl, Ty.declarator, Ty.element, brackets]

/-- **What the spelling of a type denotes.** The name of a type is read as the type with the lengths
of its arrays in reverse, and its declaration as the type with all lengths but the outermost in
reverse; so either is read as the type it comes from exactly if these lengths are the same from both
ends. -/
theorem read_back_iff_palindrome {ty : Ty} (named : ty.Named) {name : String}
    (word : isWord name) :
    (readTy (Dialect.glsl.typeName ty) = some (ty.element.arrayOf ty.extents.reverse) ∧
      (readTy (Dialect.glsl.typeName ty) = some ty ↔ ty.extents.reverse = ty.extents)) ∧
    (readDeclaration (Dialect.glsl.declarator ty name) =
        some (ty.element.arrayOf (ty.extents.take 1 ++ ty.extents.tail.reverse), name) ∧
      (readDeclaration (Dialect.glsl.declarator ty name) = some (ty, name) ↔
        ty.extents.tail.reverse = ty.extents.tail)) := by
  have typeRead : readTy (Dialect.glsl.typeName ty) = _ := readTy_glslName named
  have declared := readDeclaration_declarator named word
  refine ⟨⟨typeRead, ?_⟩, declared, ?_⟩
  · rw [typeRead, Option.some_inj, Ty.arrayOf_eq_iff]
  · rw [declared, Option.some_inj, Prod.mk.injEq, Ty.arrayOf_eq_iff]
    have split : ty.extents.take 1 ++ ty.extents.tail = ty.extents := by
      rw [← List.drop_one, List.take_append_drop]
    constructor
    · rintro ⟨same, -⟩
      exact List.append_cancel_left (same.trans split.symm)
    · intro same
      exact ⟨by rw [same, split], rfl⟩

/-- Arrays of two dimensions are read with the two exchanged, and declared as they are. -/
theorem read_back_iff_palindrome_lights :
    (Ty.array (.array (.struct "Light") (some 2)) (some 3)).Named ∧ isWord "lights" ∧
      readTy (Dialect.glsl.typeName (.array (.array (.struct "Light") (some 2)) (some 3))) =
        some (.array (.array (.struct "Light") (some 3)) (some 2)) ∧
      readDeclaration (Dialect.glsl.declarator
          (.array (.array (.struct "Light") (some 2)) (some 3)) "lights") =
        some (.array (.array (.struct "Light") (some 2)) (some 3), "lights") := by
  have named : (Ty.array (.array (.struct "Light") (some 2)) (some 3)).Named :=
    ⟨by decide, by decide⟩
  have word : isWord "lights" := by decide
  obtain ⟨⟨typeRead, -⟩, -, declared⟩ := read_back_iff_palindrome named word
  exact ⟨named, word, typeRead, declared.mpr rfl⟩

/-- Some arrays of two dimensions are not read back from their name, and some of three not from their
declaration. -/
theorem not_read_back :
    readTy (Dialect.glsl.typeName (.array (.array (.vector .float 4) (some 2)) (some 3))) ≠
        some (.array (.array (.vector .float 4) (some 2)) (some 3)) ∧
      readDeclaration (Dialect.glsl.declarator
          (.array (.array (.array (.vector .float 4) (some 3)) (some 2)) (some 4)) "a") ≠
        some (.array (.array (.array (.vector .float 4) (some 3)) (some 2)) (some 4), "a") := by
  decide

end ShaderLoom
