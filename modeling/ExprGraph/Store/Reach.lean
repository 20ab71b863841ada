import ExprGraph.Store.Basic
/-!
  The vertices below a vertex, each once.

  A depth-first search follows all links, those of leaves included, and enters every live vertex it meets
  once.  Its record is a list of events: a vertex is entered before, and left after, everything that is
  first met below it.  Read by entering, the record numbers the vertices as a preorder walk does
  (`Store.entered`); read by leaving, it puts children before their parents as long as the links form no
  circle (`Store.finished`).

    * state    the vertices entered so far, and the events still to come;
    * measure  the number of vertices not entered, then the number of events to come.
-/

namespace ExprGraph

/-- An event of a depth-first search. -/
inductive Visit where
  | enter (v : VertexId)
  | leave (v : VertexId)

namespace Visit

/-- The vertex, if it is being entered. -/
def entered? : Visit → Option VertexId
  | enter v => some v
  | leave _ => none

/-- The vertex, if it is being left. -/
def left? : Visit → Option VertexId
  | enter _ => none
  | leave v => some v

end Visit

namespace Store

/-- The search: `work` holds the events to come, `record` those that happened, latest first.  An event
    of entering happens when the vertex is live and was not entered before. -/
def search (s : Store) (seen : Array Bool) (record : List Visit) : List Visit → List Visit
  | [] => record.reverse
  | .leave v :: work => search s seen (.leave v :: record) work
  | .enter v :: work =>
    if _h : seen[v]? = some false then
      let below := (s.children v).map Visit.enter
      search s (seen.setIfInBounds v true) (.enter v :: record) (below ++ .leave v :: work)
    else search s seen record work
termination_by work => (seen.countP (· == false), work.length)
decreasing_by
  · exact Prod.Lex.right _ (by simp)
  · refine Prod.Lex.left _ _ ?_
    have hv : v < seen.size := by
      rcases Nat.lt_or_ge v seen.size with hv | hv
      · exact hv
      · rw [Array.getElem?_eq_none hv] at _h; simp at _h
    have hx : seen[v] = false := by
      rw [Array.getElem?_eq_getElem hv] at _h; simpa using _h
    have hset : seen.setIfInBounds v true = seen.set v true hv := by
      simp [Array.setIfInBounds, hv]
    have hpos : 0 < seen.countP (· == false) :=
      Array.countP_pos_iff.2 ⟨_, Array.getElem_mem hv, by simp [hx]⟩
    rw [hset, Array.countP_set, hx]
    exact Nat.sub_lt hpos (by simp)
  · exact Prod.Lex.right _ (by simp)

/-- The record of a search from several vertices, one after the other. -/
def visits (s : Store) (roots : List VertexId) : List Visit :=
  search s (s.vertices.map Option.isNone) [] (roots.map Visit.enter)

/-- **The vertices reachable from the roots**, each once, in preorder. -/
def entered (s : Store) (roots : List VertexId) : List VertexId :=
  (s.visits roots).filterMap Visit.entered?

/-- **The vertices reachable from the roots**, each once, children first. -/
def finished (s : Store) (roots : List VertexId) : List VertexId :=
  (s.visits roots).filterMap Visit.left?

end Store

end ExprGraph
