import Goka.Basic

/-!
# The assignment of a processor

At the beginning of a session the processor turns the claims it received, a list of partitions for
each topic, into an assignment, and refuses claims that are not copartitioned. A nil map is an
assignment without partitions.
-/

namespace Goka

/-- `Assignment`: the offset from which a partition is consumed. -/
abbrev Assignment := GoMap Int Int

def offsetNewest : Int := -1

namespace Assignment

def ofClaim (claim : List Int) : Assignment :=
  claim.foldl (fun assignment part => assignment.insert part offsetNewest) ∅

/-- The partitions of an assignment that may be nil. -/
def assignedPartitions (assignment : Option Assignment) : List Int := assignment.elim [] AList.keys

end Assignment

namespace Processor

/-- The loop of `assignmentFromSession`, over the claims in the order of the map. The dump of the
claims that ends the error text is left out. -/
def verifyClaims : List (Sigma fun _ : String => List Int) → Option Assignment →
    Except String (Option Assignment)
  | [], assignment => .ok assignment
  | ⟨_, claim⟩ :: rest, none => verifyClaims rest (some (Assignment.ofClaim claim))
  | ⟨_, claim⟩ :: rest, some assignment =>
      if claim.length ≠ assignment.entries.length then
        .error "session claims are not copartitioned"
      else if claim.any fun part => (assignment.lookup part).isNone then
        .error "session claims are not copartitioned"
      else
        verifyClaims rest (some assignment)

def assignmentFromSession (claims : GoMap String (List Int)) : Except String (Option Assignment) :=
  verifyClaims claims.entries none

end Processor

end Goka
