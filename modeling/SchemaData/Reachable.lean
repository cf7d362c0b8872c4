/-!
# SchemaData.Reachable -- search in a finite graph

`reachable next left pending` lists the elements of `left` that can be reached
from `pending` along `next` without leaving `left`.  Each step either drops a
pending element or takes one element out of `left`, so the search ends on every
graph, whatever cycles it has.
-/

namespace SchemaData

set_option autoImplicit false

/-- The elements of `left` reached from `pending`, each listed once when `left`
has no repeats. -/
def reachable {α : Type} [DecidableEq α] (next : α → List α) (left : List α) :
    List α → List α
  | [] => []
  | a :: pending =>
      if _inside : a ∈ left then a :: reachable next (left.erase a) (next a ++ pending)
      else reachable next left pending
termination_by pending => (left.length, pending.length)
decreasing_by
  · have := List.length_erase_of_mem _inside
    have := List.length_pos_of_mem _inside
    exact Prod.Lex.left _ _ (by omega)
  · exact Prod.Lex.right _ (by simp)

end SchemaData
