import SyntaxWalk.Trace.Basic

/-!
# Forests and their listings

A finite ordered forest of labelled nodes, and the events of walking it: for each tree in turn, its root
is entered, its children are listed, and its root is left. The listings are the well-nested traces.
-/

set_option autoImplicit false

namespace SyntaxWalk

/-- A finite ordered tree whose nodes are labelled by type names. -/
inductive Labelled where
  | node (nodeType : String) (children : List Labelled)

namespace Labelled

mutual

/-- The events of walking a tree. -/
def listing : Labelled → Trace
  | node nodeType children =>
    ⟨.enter, nodeType⟩ :: (listingAll children ++ [⟨.leave, nodeType⟩])

/-- The events of walking the trees of a forest one after the other. -/
def listingAll : List Labelled → Trace
  | [] => []
  | tree :: rest => listing tree ++ listingAll rest

end

end Labelled

end SyntaxWalk
