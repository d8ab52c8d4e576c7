import Fluxion.Proofs.Forest.Context
import Mathlib.Data.List.Basic

/-!
# Trees standing in a forest

`Stands` says of a list of trees that they are in the forest, apart from each other, each
with a detached top. It says nothing about the cells of no tree, whose slots and parents
may be out of date. `Holds` adds which of the trees is live. Every edit is described by
what it does to the trees; the trees it does not name stay as they are.
-/

namespace Fluxion

/-- What edits of the trees leave alone: the registry, and the first entries of the list of
retired cells, of which nothing is required. -/
structure Mark where
  registry : Registry
  past : Nat

namespace Forest

def nodesOf (ts : List Tree) : List Nat := ts.flatMap Tree.nodes

structure Stands (f : Forest) (m : Mark) (ts : List Tree) : Prop where
  sizes : f.parents.size = f.cells.size
  registry : f.registry = m.registry
  fits : ∀ t ∈ ts, t.Fits f.cells
  linked : ∀ t ∈ ts, t.Linked f.parent
  detached : ∀ t ∈ ts, f.parent t.top = none
  apart : (nodesOf ts).Nodup
  retired : ∀ i ∈ f.retired.toList.drop m.past, i < f.size ∧ i ∉ nodesOf ts

structure Holds (f : Forest) (m : Mark) (live : Option Tree) (ts : List Tree) : Prop where
  root : f.root = live.map Tree.top
  stands : f.Stands m (live.toList ++ ts)

@[simp] theorem nodesOf_nil : nodesOf [] = [] := rfl

@[simp] theorem nodesOf_cons (t : Tree) (ts : List Tree) :
    nodesOf (t :: ts) = t.nodes ++ nodesOf ts := rfl

theorem mem_nodesOf {ts : List Tree} {i : Nat} : i ∈ nodesOf ts ↔ ∃ t ∈ ts, i ∈ t.nodes :=
  List.mem_flatMap

namespace Stands

variable {f g : Forest} {m : Mark} {s t : Tree} {ts us : List Tree}

theorem lt (h : f.Stands m ts) : ∀ i ∈ nodesOf ts, i < f.size := by
  intro i hi
  obtain ⟨t, ht, hi⟩ := mem_nodesOf.mp hi
  exact (h.fits t ht).lt i hi

theorem perm (h : f.Stands m ts) (p : ts.Perm us) : f.Stands m us where
  sizes := h.sizes
  registry := h.registry
  fits t ht := h.fits t (p.mem_iff.mpr ht)
  linked t ht := h.linked t (p.mem_iff.mpr ht)
  detached t ht := h.detached t (p.mem_iff.mpr ht)
  apart := ((p.flatMap_right Tree.nodes).nodup_iff).mp h.apart
  retired i hi := by
    obtain ⟨lt, off⟩ := h.retired i hi
    constructor
    · exact lt
    · intro hm
      exact off ((p.flatMap_right Tree.nodes).mem_iff.mpr hm)

/-- Trees may be forgotten. -/
theorem tail (h : f.Stands m (t :: ts)) : f.Stands m ts where
  sizes := h.sizes
  registry := h.registry
  fits s hs := h.fits s (List.mem_cons_of_mem t hs)
  linked s hs := h.linked s (List.mem_cons_of_mem t hs)
  detached s hs := h.detached s (List.mem_cons_of_mem t hs)
  apart := (List.nodup_append.mp h.apart).2.1
  retired i hi := by
    obtain ⟨lt, off⟩ := h.retired i hi
    constructor
    · exact lt
    · intro hm
      exact off (List.mem_append_right _ hm)

theorem nodup_head (h : f.Stands m (t :: ts)) : t.nodes.Nodup :=
  (List.nodup_append.mp h.apart).1

theorem notMem_tail (h : f.Stands m (t :: ts)) {i : Nat} (hi : i ∈ t.nodes) :
    i ∉ nodesOf ts := fun hm => (List.disjoint_of_nodup_append h.apart) hi hm

/-- Trees whose cells and parents did not change still stand. -/
theorem frame (h : f.Stands m ts) (sizes : g.parents.size = g.cells.size)
    (registry : g.registry = f.registry)
    (cells : ∀ i ∈ nodesOf ts, g.cells[i]? = f.cells[i]?)
    (parents : ∀ i ∈ nodesOf ts, g.parent i = f.parent i)
    (retired : ∀ i ∈ g.retired.toList.drop m.past, i < g.size ∧ i ∉ nodesOf ts) :
    g.Stands m ts where
  sizes := sizes
  registry := registry.trans h.registry
  fits t ht := (h.fits t ht).congr fun i hi => cells i (mem_nodesOf.mpr ⟨t, ht, hi⟩)
  linked t ht := (h.linked t ht).congr fun i hi =>
    parents i (mem_nodesOf.mpr ⟨t, ht, Tree.mem_nodes.mpr (Or.inl hi)⟩)
  detached t ht :=
    (parents t.top (mem_nodesOf.mpr ⟨t, ht, t.top_mem_nodes⟩)).trans (h.detached t ht)
  apart := h.apart
  retired := retired

/-- A tree apart from the others joins them. -/
theorem cons (h : f.Stands m ts) (fits : t.Fits f.cells) (linked : t.Linked f.parent)
    (detached : f.parent t.top = none) (nodup : t.nodes.Nodup)
    (apart : ∀ i ∈ t.nodes, i ∉ nodesOf ts)
    (retired : ∀ i ∈ f.retired.toList.drop m.past, i ∉ t.nodes) :
    f.Stands m (t :: ts) where
  sizes := h.sizes
  registry := h.registry
  fits s hs := by
    rcases List.mem_cons.mp hs with rfl | hs
    · exact fits
    · exact h.fits s hs
  linked s hs := by
    rcases List.mem_cons.mp hs with rfl | hs
    · exact linked
    · exact h.linked s hs
  detached s hs := by
    rcases List.mem_cons.mp hs with rfl | hs
    · exact detached
    · exact h.detached s hs
  apart := nodup.append h.apart fun i hi hm => apart i hi hm
  retired i hi := by
    obtain ⟨lt, off⟩ := h.retired i hi
    constructor
    · exact lt
    · intro hm
      rcases List.mem_append.mp hm with hm | hm
      · exact retired i hi hm
      · exact off hm

variable {k : Context}

theorem nodup_context (h : f.Stands m (k.plug s :: ts)) : (s.nodes ++ k.nodes).Nodup :=
  (Context.nodes_plug k s).nodup_iff.mp h.nodup_head

theorem parent_hole (h : f.Stands m (k.plug s :: ts)) :
    f.parent s.top = k.head?.map Frame.node := by
  cases k with
  | nil => exact h.detached s List.mem_cons_self
  | cons c k => exact (Context.linked_plug.mp (h.linked _ List.mem_cons_self)).2.1

theorem top_notMem_context (h : f.Stands m (k.plug s :: ts)) : s.top ∉ k.nodes :=
  List.disjoint_of_nodup_append h.nodup_context s.top_mem_nodes

end Stands

/-! ### A cell more, and another parent -/

/-- With a further cell, which has no parent. -/
def push (f : Forest) (c : Cell) : Forest :=
  { f with cells := f.cells.push c, parents := f.parents.push none }

/-- With another parent for the cell `i`. -/
def link (f : Forest) (i : Nat) (p : Option Nat) : Forest :=
  { f with parents := f.parents.setIfInBounds i p }

variable {f : Forest} {m : Mark} {s t : Tree} {ts : List Tree}

theorem size_push (f : Forest) (c : Cell) : (f.push c).size = f.size + 1 :=
  Array.size_push c

theorem cells_push_of_lt {c : Cell} {i : Nat} (h : i < f.size) :
    (f.push c).cells[i]? = f.cells[i]? := by
  have last : i ≠ f.cells.size := Nat.ne_of_lt h
  simp [push, Array.getElem?_push, last]

theorem cells_push_size (f : Forest) (c : Cell) : (f.push c).cells[f.size]? = some c := by
  simp [push, size]

theorem parent_push (f : Forest) (c : Cell) (i : Nat) : (f.push c).parent i = f.parent i := by
  simp only [parent, push, Array.getElem?_push]
  split
  · next h => subst h; simp
  · rfl

theorem parent_of_le (sizes : f.parents.size = f.cells.size) {i : Nat} (h : f.size ≤ i) :
    f.parent i = none := by
  have out : f.parents.size ≤ i := sizes ▸ h
  simp [parent, out]

theorem parent_link_self {i : Nat} (p : Option Nat) (h : i < f.parents.size) :
    (f.link i p).parent i = p := by
  simp [parent, link, h]

theorem parent_link_of_ne {i j : Nat} (p : Option Nat) (h : i ≠ j) :
    (f.link i p).parent j = f.parent j := by
  simp [parent, link, h]

namespace Stands

theorem push (h : f.Stands m ts) (c : Cell) : (f.push c).Stands m ts := by
  apply h.frame
  · simp [Forest.push, h.sizes]
  · rfl
  · intro i hi
    exact cells_push_of_lt (h.lt i hi)
  · intro i _
    exact parent_push f c i
  · intro i hi
    obtain ⟨lt, off⟩ := h.retired i hi
    refine ⟨?_, off⟩
    rw [size_push]
    omega

theorem link (h : f.Stands m ts) {i : Nat} (p : Option Nat) (hi : i ∉ nodesOf ts) :
    (f.link i p).Stands m ts := by
  refine h.frame ?_ rfl (fun _ _ => rfl) ?_ h.retired
  · simp [Forest.link, h.sizes]
  · intro j hj
    have ne : i ≠ j := by
      rintro rfl
      exact hi hj
    exact parent_link_of_ne p ne

/-- The cell that comes next is neither in a tree nor retired. -/
theorem size_fresh (h : f.Stands m ts) :
    f.size ∉ nodesOf ts ∧ ∀ i ∈ f.retired.toList.drop m.past, i ≠ f.size := by
  constructor
  · intro hm
    have lt := h.lt _ hm
    omega
  · intro i hi he
    have lt := (h.retired i hi).1
    omega

/-- A tree is apart from the rest if its top comes next and its other nodes are those of trees
that stand. -/
theorem apart_of_nodes (us : List Tree) (h : f.Stands m (us ++ ts))
    (nodes : t.nodes = nodesOf us ++ [f.size]) :
    t.nodes.Nodup ∧ (∀ i ∈ t.nodes, i ∉ nodesOf ts) ∧
      ∀ i ∈ f.retired.toList.drop m.past, i ∉ t.nodes := by
  obtain ⟨fresh, unretired⟩ := h.size_fresh
  have split : nodesOf (us ++ ts) = nodesOf us ++ nodesOf ts := List.flatMap_append
  have apart := h.apart
  rw [split, List.mem_append, not_or] at fresh
  rw [split] at apart
  rw [nodes]
  refine ⟨?_, ?_, ?_⟩
  · rw [List.nodup_append]
    refine ⟨(List.nodup_append.mp apart).1, by simp, ?_⟩
    intro i hi j hj he
    rw [List.mem_singleton] at hj
    exact fresh.1 (hj ▸ he ▸ hi)
  · intro i hi
    rcases List.mem_append.mp hi with hi | hi
    · exact List.disjoint_of_nodup_append apart hi
    · rw [List.mem_singleton] at hi
      exact hi ▸ fresh.2
  · intro i hi hm
    rcases List.mem_append.mp hm with hm | hm
    · exact (h.retired i hi).2 (split ▸ List.mem_append_left _ hm)
    · exact unretired i hi (List.mem_singleton.mp hm)

theorem parent_push_size (h : f.Stands m ts) (c : Cell) : (f.push c).parent f.size = none := by
  rw [parent_push]
  exact parent_of_le h.sizes (Nat.le_refl _)

theorem push_number (h : f.Stands m ts) (x : Float) :
    (f.push (.number x)).Stands m (.number f.size x :: ts) := by
  obtain ⟨nodup, apart, unretired⟩ :=
    apart_of_nodes [] (t := .number f.size x) h rfl
  have detached := h.parent_push_size (.number x)
  exact (h.push (.number x)).cons (cells_push_size f _) trivial detached nodup apart unretired

theorem push_var (h : f.Stands m ts) (key : Key) :
    (f.push (.var key)).Stands m (.var f.size key :: ts) := by
  obtain ⟨nodup, apart, unretired⟩ := apart_of_nodes [] (t := .var f.size key) h rfl
  have detached := h.parent_push_size (.var key)
  exact (h.push (.var key)).cons (cells_push_size f _) trivial detached nodup apart unretired

theorem push_unary (h : f.Stands m (t :: ts)) (op : Unary) :
    ((f.push (.unary op t.top)).link t.top (some f.size)).Stands m
      (.unary f.size op t :: ts) := by
  obtain ⟨nodup, apart, unretired⟩ :=
    apart_of_nodes [t] (t := .unary f.size op t) h (by simp)
  obtain ⟨nodupOperand, off⟩ := Tree.nodup_unary nodup
  have top : t.top ≠ f.size := fun he => off (he ▸ t.top_mem_nodes)
  have lt : t.top < f.parents.size := h.sizes ▸ (h.fits t List.mem_cons_self).top_lt
  have old := h.push (.unary op t.top)
  refine (old.tail.link _ (h.notMem_tail t.top_mem_nodes)).cons ?_ ?_ ?_ nodup apart unretired
  · exact ⟨cells_push_size f _, old.fits t List.mem_cons_self⟩
  · constructor
    · exact parent_link_self _ (by simp [Forest.push]; omega)
    · apply (old.linked t List.mem_cons_self).congr
      intro i hi
      have ne : t.top ≠ i := by
        rintro rfl
        exact Tree.top_notMem_under nodupOperand hi
      exact parent_link_of_ne _ ne
  · rw [Tree.top_unary, parent_link_of_ne _ top]
    exact h.parent_push_size _

theorem push_binary (h : f.Stands m (s :: t :: ts)) (op : Binary) :
    (((f.push (.binary op s.top t.top)).link s.top (some f.size)).link t.top
      (some f.size)).Stands m (.binary f.size op s t :: ts) := by
  obtain ⟨nodup, apart, unretired⟩ :=
    apart_of_nodes [s, t] (t := .binary f.size op s t) h (by simp)
  obtain ⟨nodupLeft, nodupRight, disjoint, offLeft, offRight⟩ := Tree.nodup_binary nodup
  have topLeft : s.top ≠ f.size := fun he => offLeft (he ▸ s.top_mem_nodes)
  have topRight : t.top ≠ f.size := fun he => offRight (he ▸ t.top_mem_nodes)
  have tops : t.top ≠ s.top := fun he => disjoint s.top s.top_mem_nodes (he ▸ t.top_mem_nodes)
  have ltLeft : s.top < f.parents.size := h.sizes ▸ (h.fits s List.mem_cons_self).top_lt
  have ltRight : t.top < f.parents.size := h.sizes ▸ (h.tail.fits t List.mem_cons_self).top_lt
  have old := h.push (.binary op s.top t.top)
  have rest := (old.tail.tail.link (some f.size) (apart s.top (by simp))).link (some f.size)
    (apart t.top (by simp))
  refine rest.cons ?_ ?_ ?_ nodup apart unretired
  · exact ⟨cells_push_size f _, old.fits s List.mem_cons_self,
      old.tail.fits t List.mem_cons_self⟩
  · refine ⟨?_, parent_link_self _ (by simp [Forest.push, Forest.link]; omega), ?_, ?_⟩
    · rw [parent_link_of_ne _ tops]
      exact parent_link_self _ (by simp [Forest.push]; omega)
    · apply (old.linked s List.mem_cons_self).congr
      intro i hi
      have hi' : i ∈ s.nodes := Tree.mem_nodes.mpr (Or.inl hi)
      rw [parent_link_of_ne, parent_link_of_ne]
      · rintro rfl
        exact Tree.top_notMem_under nodupLeft hi
      · rintro rfl
        exact disjoint t.top hi' t.top_mem_nodes
    · apply (old.tail.linked t List.mem_cons_self).congr
      intro i hi
      have hi' : i ∈ t.nodes := Tree.mem_nodes.mpr (Or.inl hi)
      rw [parent_link_of_ne, parent_link_of_ne]
      · rintro rfl
        exact disjoint s.top s.top_mem_nodes hi'
      · rintro rfl
        exact Tree.top_notMem_under nodupRight hi
  · rw [Tree.top_binary, parent_link_of_ne _ topRight, parent_link_of_ne _ topLeft]
    exact h.parent_push_size _

end Stands

/-- A single tree that is live stands, with what is retired apart from it. -/
theorem holds_of_tree {past : Nat} (sizes : f.parents.size = f.cells.size)
    (root : f.root = some t.top) (fits : t.Fits f.cells) (linked : t.Linked f.parent)
    (detached : f.parent t.top = none) (nodup : t.nodes.Nodup)
    (retired : ∀ i ∈ f.retired.toList.drop past, i < f.size ∧ i ∉ t.nodes) :
    f.Holds ⟨f.registry, past⟩ (some t) [] := by
  refine ⟨root, sizes, rfl, ?_, ?_, ?_, ?_, ?_⟩
  · simpa using fits
  · simpa using linked
  · simpa using detached
  · simpa using nodup
  · simpa using retired

end Forest

end Fluxion
