import Mathlib.Tactic.Common
import Sortie.Markup.Event

/-! Documents as trees, and the events of a tree. -/
namespace Sortie.Markup

/-- A part of a document: an element with its children, an element that is closed by its own tag,
text with its references unresolved, or literal text. -/
inductive Node where
  | element (tag : String) (children : List Node)
  | empty (tag : String)
  | text (raw : String)
  | literal (raw : String)

namespace Node

/-- Induction over a tree, for an element from all of its children. -/
@[elab_as_elim]
theorem induct {motive : Node → Prop}
    (element : ∀ tag children, (∀ n ∈ children, motive n) → motive (.element tag children))
    (empty : ∀ tag, motive (.empty tag)) (text : ∀ raw, motive (.text raw))
    (literal : ∀ raw, motive (.literal raw)) (n : Node) : motive n := by
  refine @Node.rec motive (fun ns => ∀ n ∈ ns, motive n) element empty text literal (by simp) ?_ n
  intro n ns hn hns
  exact List.forall_mem_cons.2 ⟨hn, hns⟩

/-- The name of an element, without its namespace. -/
def name? : Node → Option String
  | element tag _ => some (localName tag)
  | empty tag => some (localName tag)
  | _ => none

def isNamed (name : String) (n : Node) : Bool := n.name? = some name

def children : Node → List Node
  | element _ ns => ns
  | _ => []

/-- Whether a node has an opening and a closing tag. -/
def isPaired : Node → Bool
  | element _ _ => true
  | _ => false

mutual

/-- The events of a node, in document order. -/
def events : Node → List Event
  | element tag ns => .opening tag :: (eventsAll ns ++ [.closing tag])
  | empty tag => [.empty tag]
  | text raw => [.text raw]
  | literal raw => [.literal raw]

def eventsAll : List Node → List Event
  | [] => []
  | n :: ns => n.events ++ eventsAll ns

end

mutual

/-- A node and everything beneath it, in document order. -/
def nodes : Node → List Node
  | element tag ns => element tag ns :: nodesAll ns
  | empty tag => [empty tag]
  | text raw => [text raw]
  | literal raw => [literal raw]

def nodesAll : List Node → List Node
  | [] => []
  | n :: ns => n.nodes ++ nodesAll ns

end

lemma nodesAll_eq (ns : List Node) : nodesAll ns = ns.flatMap nodes := by
  induction ns with
  | nil => rfl
  | cons n ns ih => rw [nodesAll, ih, List.flatMap_cons]

lemma nodes_eq (n : Node) : n.nodes = n :: nodesAll n.children := by
  cases n <;> rfl

@[simp] lemma nodesAll_singleton (n : Node) : nodesAll [n] = n.nodes := by
  rw [nodesAll, nodesAll, List.append_nil]

lemma mem_nodes_self (n : Node) : n ∈ n.nodes := by
  rw [nodes_eq]
  exact List.mem_cons_self

lemma nodesAll_children_subset (n : Node) : nodesAll n.children ⊆ n.nodes := by
  rw [nodes_eq]
  exact List.subset_cons_self _ _

lemma nodes_subset {n : Node} {ns : List Node} (hn : n ∈ ns) : n.nodes ⊆ nodesAll ns := by
  intro m hm
  rw [nodesAll_eq]
  exact List.mem_flatMap.2 ⟨n, hn, hm⟩

/-- What is beneath a part of a node is beneath the node. -/
lemma nodes_subset_of_mem_nodes {m n : Node} (hm : m ∈ n.nodes) : m.nodes ⊆ n.nodes := by
  induction n using induct with
  | element tag ns ih =>
    rw [nodes, List.mem_cons] at hm
    rcases hm with rfl | hm
    · exact List.Subset.refl _
    · rw [nodesAll_eq] at hm
      obtain ⟨c, hc, hmc⟩ := List.mem_flatMap.1 hm
      exact List.Subset.trans (ih c hc hmc)
        (List.Subset.trans (nodes_subset hc) (element tag ns).nodesAll_children_subset)
  | empty tag => rw [List.mem_singleton.1 hm]; exact List.Subset.refl _
  | text raw => rw [List.mem_singleton.1 hm]; exact List.Subset.refl _
  | literal raw => rw [List.mem_singleton.1 hm]; exact List.Subset.refl _

@[simp] lemma isNamed_element_iff {name tag : String} {ns : List Node} :
    (element tag ns).isNamed name = true ↔ localName tag = name := by
  simp [isNamed, name?]

@[simp] lemma isNamed_empty_iff {name tag : String} :
    (empty tag).isNamed name = true ↔ localName tag = name := by
  simp [isNamed, name?]

end Node
end Sortie.Markup
