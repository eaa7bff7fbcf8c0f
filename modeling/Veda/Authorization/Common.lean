import Veda.Lib.HashMap

set_option autoImplicit false

/-!
# Access bits, rights and the storage of the access index

The data model of the `v-authorization` crate: the eight access bits and their letters, the
`Right` a record grants to one subject, and the read interface of the index.

## Main definitions

* `Authorization.Access` — the eight access bits, allow bits below deny bits.
* `Authorization.Right`, `Authorization.RightSet` — the entries of a record.
* `Authorization.Storage` — the index as the access check reads it.
-/

namespace Veda.Authorization

open Veda.Lib

/-- A byte, as the `u8` of the source. -/
abbrev U8 := BitVec 8

/-- The access bits. -/
inductive Access
  | canCreate | canRead | canUpdate | canDelete
  | cantCreate | cantRead | cantUpdate | cantDelete
  deriving DecidableEq, Repr

/-- The numeric value of an access bit (`as u8`). -/
def Access.toU8 : Access → U8
  | .canCreate => 1
  | .canRead => 2
  | .canUpdate => 4
  | .canDelete => 8
  | .cantCreate => 16
  | .cantRead => 32
  | .cantUpdate => 64
  | .cantDelete => 128

def permissionPrefix : String := "P"
def filterPrefix : String := "F"
def membershipPrefix : String := "M"

/-- The allow bits, in the order the access check visits them. -/
def access8List : List U8 := [1, 2, 4, 8]

/-- All access bits. -/
def access8FullList : List U8 := [1, 2, 4, 8, 16, 32, 64, 128]

/-- The predicate that grants an access bit, by the value of the bit. -/
def accessPredicateList : List String :=
  ["", "v-s:canCreate", "v-s:canRead", "", "v-s:canUpdate", "", "", "", "v-s:canDelete"]

/-- The marker of an entry without a mark (`0 as char`). -/
def noMarker : Char := Char.ofNat 0

/-- Reference counts by access letter. -/
abbrev Counters := HashMap Char (BitVec 16)

/-- What a record grants to the subject (or says about the group) `id`. -/
structure Right where
  id : String
  access : U8
  marker : Char
  isDeleted : Bool
  level : U8
  counters : Counters
  deriving DecidableEq

/-- A right with the default values of the source. -/
def Right.new (id : String) : Right where
  id := id
  access := 15
  marker := noMarker
  isDeleted := false
  level := 0
  counters := ∅

/-- The entries of a record by id. -/
abbrev RightSet := HashMap String Right

/-- The index as the access check reads it: a value, or an error code. The code `0` says that
the key is absent, a negative one that the read failed. -/
structure Storage where
  get : String → Except Int String

end Veda.Authorization
