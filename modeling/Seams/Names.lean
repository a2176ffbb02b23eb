import Seams.Scope

/-!
# Generated names

Every name that generated code introduces is new. A *fresh* name is made from a base: `_base`, or
with a number if that is taken by any identifier of the module or by an earlier generated name. A
*reserved* name is wanted as it stands, and only a binding of the module or an earlier generated
name can be in its way; then a second choice is tried, and then a fresh name.

## Main definitions

* `Names` — the scope of a module together with the names generated for it
* `Names.stem`, `Names.candidate` — the sequence of names made from a base
* `Names.fresh`, `Names.reserve` — generating a name
-/

namespace Seams

/-- The scope of a module and the names generated for it so far. -/
structure Names where
  scope : Scope
  issued : List String := []
  deriving Repr

namespace Names

/-! ### What is taken -/

/-- Whether a name was generated, occurs in the module or is bound in it. -/
def isTaken (names : Names) (name : String) : Bool :=
  names.issued.contains name || names.scope.references.contains name || names.scope.binds name

/-- Whether a name was generated or is bound at the top level of the module. -/
def isReserved (names : Names) (name : String) : Bool :=
  names.scope.binds name || names.issued.contains name

/-- Every name that is taken, some of them more than once. -/
def taken (names : Names) : List String :=
  names.issued ++ names.scope.references ++ names.scope.bindings.names

/-- Count a name among the generated ones. -/
def issue (names : Names) (name : String) : Names :=
  { names with issued := names.issued.insert name }

/-! ### Fresh names -/

/-- The characters that a generated name may have: ASCII letters and digits, `_` and `$`. -/
def isPlain (c : Char) : Bool :=
  c.isAlphanum || c == '_' || c == '$'

/-- The base of a sequence of names: other characters become `_`, then the underscores in front and
the digits behind go, and if nothing is left, `temp` stands in. -/
def stem (base : String) : List Char :=
  let plain := base.toList.map fun c => if isPlain c then c else '_'
  let front := plain.dropWhile (· == '_')
  let stripped := (front.reverse.dropWhile Char.isDigit).reverse
  if stripped.isEmpty then "temp".toList else stripped

/-- The name at a place, counted from one, of the sequence with a given stem. -/
def candidate (stem : List Char) (place : Nat) : String :=
  String.ofList ('_' :: stem ++ if place ≤ 1 then [] else Nat.toDigits 10 place)

/-- The first name of a sequence that is not taken, from a place on. The search ends after
`attempts` names that are taken; there are no more than that in `fresh`. -/
def firstFree (isTaken : String → Bool) (sequence : Nat → String) : Nat → Nat → String
  | 0, place => sequence place
  | attempts + 1, place =>
    if isTaken (sequence place) then firstFree isTaken sequence attempts (place + 1)
    else sequence place

/-- The base that stands in when none is given. -/
def defaultBase : String := "temp"

/-- A new name made from a base, unlike every identifier of the module. -/
def fresh (names : Names) (base : String := defaultBase) : String × Names :=
  let name := firstFree names.isTaken (candidate (stem base)) names.taken.length 1
  (name, names.issue name)

/-! ### Reserved names -/

/-- What came of a wish for a name: the name, the choices that were in use, and the new state. -/
structure Reservation where
  name : String
  refused : List String
  names : Names
  deriving Repr

/-- Generate a name by choice: the first of `choices` that is neither bound nor generated before,
or else a fresh name made from `base`. -/
def reserveFrom (names : Names) (base : String) : List String → Reservation
  | [] =>
    let (name, names) := names.fresh base
    ⟨name, [], names⟩
  | choice :: rest =>
    if names.isReserved choice then
      let reservation := reserveFrom names base rest
      { reservation with refused := choice :: reservation.refused }
    else ⟨choice, [], names.issue choice⟩

/-- Generate a name by choice: `preferred`, else `fallback` if there is one, else a fresh name. -/
def reserve (names : Names) (preferred : String) (fallback : Option String := none) :
    Reservation :=
  names.reserveFrom preferred (preferred :: fallback.toList)

end Names

end Seams
