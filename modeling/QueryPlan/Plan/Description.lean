import QueryPlan.Plan.Outline

/-!
# Descriptions of plans

A `Description` is the part of an outline that is shown to a user.  It has a JSON
form, which leaves out an absent error and an empty list of children.
-/

namespace QueryPlan

/-- What is shown of a plan tree. -/
inductive Description where
  /-- A node: identity, label, domain, size, the message of the error that stopped it, and
  its children. -/
  | node (uid : Uid) (name : String) (domain : Domain) (size : Size)
      (error : Option String) (children : List Description)

namespace Description

mutual

/-- The number of nodes. -/
def nodeCount : Description → Nat
  | .node _ _ _ _ _ children => 1 + nodeCounts children

/-- The number of nodes of several trees. -/
def nodeCounts : List Description → Nat
  | [] => 0
  | d :: ds => nodeCount d + nodeCounts ds

end

mutual

/-- The number of levels; a leaf has one. -/
def height : Description → Nat
  | .node _ _ _ _ _ children => 1 + greatestHeight children

/-- The number of levels of the highest of several trees. -/
def greatestHeight : List Description → Nat
  | [] => 0
  | d :: ds => max (height d) (greatestHeight ds)

end

mutual

/-- Has any node failed? -/
def hasError : Description → Bool
  | .node _ _ _ _ error children => error.isSome || anyHasError children

/-- Has any node of several trees failed? -/
def anyHasError : List Description → Bool
  | [] => false
  | d :: ds => hasError d || anyHasError ds

end

/-- The member that shows an error, if there is one. -/
def errorMember : Option String → List (String × Json)
  | none => []
  | some message => [("error", .ofString message)]

mutual

/-- The JSON form of a description. -/
def toJson : Description → Json
  | .node uid name domain size error children =>
    .ofFields ([("uid", JsonCodec.toJson uid), ("name", .ofString name),
      ("domain", JsonCodec.toJson domain), ("size", JsonCodec.toJson size)] ++
      errorMember error ++ childrenMember children)

/-- The member that lists the children, if there are any. -/
def childrenMember : List Description → List (String × Json)
  | [] => []
  | d :: ds => [("children", .arr (toJson d :: toJsons ds))]

/-- The JSON forms of several descriptions. -/
def toJsons : List Description → List Json
  | [] => []
  | d :: ds => toJson d :: toJsons ds

end

/-- The JSON text of a description, one item a line. -/
def write (d : Description) : String := d.toJson.write .indented

end Description

namespace Outline

mutual

/-- What is shown of a plan tree. -/
def describe : Outline → Description
  | .node info children =>
    .node info.uid info.label info.domain info.size (info.err.map QueryError.message)
      (describeAll children)

/-- What is shown of several plan trees. -/
def describeAll : List Outline → List Description
  | [] => []
  | o :: os => describe o :: describeAll os

end

end Outline

end QueryPlan
