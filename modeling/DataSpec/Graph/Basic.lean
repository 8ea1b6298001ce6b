/-!
# Directed graphs

A `Digraph` is a list of nodes and a list of edges, both in the order in which they were
added. `Digraph.walk` is depth-first search : it enters every free node that it meets,
follows the edges from it, the oldest first, and then leaves it. It ends because every
node is entered once.

`Digraph.order` lists the nodes so that every edge leads forward, or names a node for
which that fails; `Digraph.components` are the strongly connected components.
-/

set_option autoImplicit false

namespace DataSpec

/-- A directed graph. -/
structure Digraph (α : Type) where
  nodes : List α
  edges : List (α × α)

namespace Digraph

variable {α : Type} [DecidableEq α]

/-- The graph without nodes. -/
def empty : Digraph α := ⟨[], []⟩

/-- Add a node, unless it is there. -/
def addNode (g : Digraph α) (n : α) : Digraph α :=
  if n ∈ g.nodes then g else { g with nodes := g.nodes ++ [n] }

/-- Add an edge, unless it is there, and its ends. -/
def addEdge (g : Digraph α) (a b : α) : Digraph α :=
  let g := (g.addNode a).addNode b
  if (a, b) ∈ g.edges then g else { g with edges := g.edges ++ [(a, b)] }

/-- Where the edges from a node lead, the oldest edge first. -/
def successors (g : Digraph α) (n : α) : List α :=
  (g.edges.filter fun e => e.1 = n).map Prod.snd

/-- Where the edges to a node come from, the oldest edge first. -/
def predecessors (g : Digraph α) (n : α) : List α :=
  (g.edges.filter fun e => e.2 = n).map Prod.fst

/-! ## Depth-first search -/

/-- What a search does, or still has to do, about a node. -/
inductive Visit (α : Type) where
  | enter (n : α)
  | leave (n : α)

/-- What a search does in order, with a stack of what it has to do and the nodes that it
has not entered yet. -/
def walk (next : α → List α) : List (Visit α) → List α → List (Visit α)
  | [], _ => []
  | .leave n :: stack, free => .leave n :: walk next stack free
  | .enter n :: stack, free =>
    if n ∈ free then
      .enter n :: walk next ((next n).map .enter ++ .leave n :: stack) (free.erase n)
    else walk next stack free
termination_by stack free => (free.length, stack.length)
decreasing_by
  · exact Prod.Lex.right _ (by simp)
  · rename_i h
    have := List.length_erase_of_mem h
    have := List.length_pos_of_mem h
    exact Prod.Lex.left _ _ (by omega)
  · exact Prod.Lex.right _ (by simp)

/-- The nodes that a search enters, in order. -/
def entered (vs : List (Visit α)) : List α :=
  vs.filterMap fun
    | .enter n => some n
    | .leave _ => none

/-- The nodes that a search leaves, in order. -/
def left (vs : List (Visit α)) : List α :=
  vs.filterMap fun
    | .leave n => some n
    | .enter _ => none

/-- The search from all nodes in turn. -/
def search (g : Digraph α) (next : α → List α) : List (Visit α) :=
  walk next (g.nodes.map .enter) g.nodes

/-! ## Order -/

/-- The first node of a list with an edge from a node that neither is itself nor comes
before it : where that edge comes from. `seen` is what comes before the list. -/
def late? (g : Digraph α) : List α → List α → Option α
  | _, [] => none
  | seen, n :: rest =>
    match (g.predecessors n).find? fun p => p ∉ n :: seen with
    | some p => some p
    | none => g.late? (n :: seen) rest

/-- The nodes in an order in which every edge leads forward, or a node of which an edge
leads back. A search leaves a node after all that it leads to, unless there is a cycle. -/
def order (g : Digraph α) : Except α (List α) :=
  let visits := g.search g.successors
  match (entered visits).find? fun n => n ∈ g.successors n with
  | some n => .error n
  | none =>
    let ns := (left visits).reverse
    match g.late? [] ns with
    | some n => .error n
    | none => .ok ns

/-! ## Components -/

/-- The components of the free nodes, each with the first of the given leaders in it. -/
def componentsFrom (g : Digraph α) : List α → List α → List (List α)
  | [], _ => []
  | n :: leaders, free =>
    if n ∈ free then
      let component := entered (walk g.successors [.enter n] free)
      component :: g.componentsFrom leaders (free.filter fun m => m ∉ component)
    else g.componentsFrom leaders free

/-- The strongly connected components : a search against the edges leaves the nodes of a
component after all that lead to it, so what a leader reaches from behind is its own
component. -/
def components (g : Digraph α) : List (List α) :=
  g.componentsFrom (left (g.search g.predecessors)).reverse g.nodes

/-- The first component that has a cycle. -/
def cyclicComponent? (g : Digraph α) : Option (List α) :=
  g.components.find? fun c =>
    match c with
    | [n] => decide (n ∈ g.successors n)
    | _ => true

end Digraph

end DataSpec
