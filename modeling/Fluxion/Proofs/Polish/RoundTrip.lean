import Fluxion.Forest.Text
import Fluxion.Proofs.Forest.Acyclic
import Fluxion.Proofs.Forest.Laid
import Fluxion.Proofs.Polish.Reading
import Fluxion.Proofs.Registry

/-!
# Writing a forest and reading it back

What is written for a forest is the term that its root unfolds to, with symbols in place of
keys. Reading makes a forest of that term alone: a cell for each of its nodes, nothing
retired, and a registry of its symbols in the order of their first occurrences.
-/

namespace Fluxion

/-! ### Symbols in place of keys -/

theorem Decimal.read?_decimalText {x : Float}
    (h : x.isNaN = false → read? (decimalText x) = some x) : read? (decimalText x) = some x := by
  cases number : x.isNaN with
  | false => exact h number
  | true =>
    rw [eq_of_isNaN number]
    decide

namespace Forest

variable {f : Forest}

/-- Every live variable has a symbol, and it is alphabetic. -/
def Lettered (f : Forest) : Prop := ∀ i key, f.Live i → f.cells[i]? = some (.var key) →
  ∃ e, f.registry.find? key = some e ∧ isAlphabetic e.symbol = true

/-- Every live number is what its text reads as, if it is a number at all. -/
def Numbered (f : Forest) : Prop := ∀ i x, f.Live i → f.cells[i]? = some (.number x) →
  x.isNaN = false → Decimal.read? (decimalText x) = some x

/-- The term of a live node with symbols in place of keys. -/
theorem foldM_naming (lettered : f.Lettered) (numbered : f.Numbered) {t : Tree}
    (fits : t.Fits f.cells) (live : ∀ i ∈ t.nodes, f.Live i) :
    ∃ u : Term Char, t.term.foldM (naming f.registry) = .ok u ∧ u.map Key.ofSymbol = t.term ∧
      u.Legible ∧ ∀ c ∈ u.names, f.registry.Lists c := by
  induction t with
  | number i x =>
    have read := Decimal.read?_decimalText (numbered i x (live i (by simp)) fits)
    exact ⟨.number x, rfl, rfl, read, by simp [Term.names]⟩
  | var i key =>
    obtain ⟨e, found, letter⟩ := lettered i key (live i (by simp)) fits
    have own : Key.ofSymbol e.symbol = key := Registry.key_of_find? found
    refine ⟨.var e.symbol, ?_, by rw [Term.map, own]; rfl, letter, ?_⟩
    · simp only [Tree.term, Term.foldM, naming, found]
    · simpa [Term.names] using Registry.lists_of_find? found
  | unary i op t ih =>
    obtain ⟨u, run, keys, legible, lists⟩ := ih fits.2 fun j hj => live j (by simp [hj])
    refine ⟨.unary op u, ?_, by rw [Term.map, keys]; rfl, legible, lists⟩
    rw [Tree.term, Term.foldM, run]
    rfl
  | binary i op s t ihs iht =>
    obtain ⟨u, run, keys, legible, lists⟩ := ihs fits.2.1 fun j hj => live j (by simp [hj])
    obtain ⟨v, run', keys', legible', lists'⟩ := iht fits.2.2 fun j hj => live j (by simp [hj])
    refine ⟨.binary op u v, ?_, by rw [Term.map, keys, keys']; rfl, ⟨legible, legible'⟩, ?_⟩
    · rw [Tree.term, Term.foldM, run, run']
      rfl
    · rw [Term.names, List.forall_mem_append]
      exact ⟨lists, lists'⟩

end Forest

namespace Forest

variable {f : Forest} {r : Nat}

/-- A shared node is written once for each path to it, so the forest that is read may have
more live cells than the one that was written, and never shares any. -/
theorem ofPolish_polish (root : f.root = some r) (acyclic : f.Acyclic) (lettered : f.Lettered)
    (numbered : f.Numbered) :
    ∃ (t : Term Char) (text : String) (g : Forest) (s : Nat),
      f.term? r = some (t.map Key.ofSymbol) ∧ (∀ c ∈ t.names, f.registry.Lists c) ∧
      f.polish = .ok text ∧ ofPolish text = .ok g ∧
      g.root = some s ∧ g.term? s = some (t.map Key.ofSymbol) ∧ g.TreeShaped ∧
      g.size = t.size ∧ g.retired = #[] ∧
      g.registry.entries = t.names.eraseDups.map (⟨·, none⟩) := by
  have live : f.Live r := ⟨r, root, .refl⟩
  obtain ⟨t, rfl, fits⟩ := acyclic.exists_tree live
  obtain ⟨u, run, keys, legible, lists⟩ := foldM_naming lettered numbered fits
    fun i hi => ⟨t.top, root, reachable_of_mem_nodes fits hi⟩
  obtain ⟨v, g, made, term, held⟩ := ofTerm_ok u
  obtain ⟨size, retired⟩ := ofTerm_size made
  refine ⟨u, Polish.write u, g, v.top, ?_, lists, ?_, ?_, held.root, ?_, held.treeShaped, size,
    retired, ?_⟩
  · rw [term?_eq fits, keys]
  · simp only [polish, root]
    rw [program_eq fits, Algebra.run_program, run]
    rfl
  · rw [ofPolish, Polish.read_write legible]
    exact made
  · rw [term?_eq held.fits_live, term]
  · rw [held.stands.registry, Registry.foldl_register fun c hc d hd => (lists c hc).eq (lists d hd)]

/-- Cells that were made after their operands, of which the sum has one in both slots. -/
def sharing : Forest where
  cells := #[.number (-0.0), .var (.ofSymbol 'λ'), .binary .mul 0 1, .number (1 / 0),
    .number (0 / 0), .binary .add 2 2, .binary .pow 3 4, .number (-2.5), .var (.ofSymbol 'x'),
    .binary .div 7 8, .binary .sub 6 9, .unary .arccot 5, .binary .add 10 11]
  parents := #[some 2, some 2, some 5, some 6, some 6, some 11, some 10, some 9, some 9,
    some 10, some 12, some 12, none]
  root := some 12
  registry := ⟨[⟨'y', some 1⟩, ⟨'x', none⟩, ⟨'λ', some 0.5⟩]⟩

theorem sharing_acyclic : sharing.Acyclic :=
  acyclic_of_lt (by decide) (by rintro r ⟨⟩; decide)

theorem sharing_lettered : sharing.Lettered := by
  intro i key _ cell
  have mem : Cell.var key ∈ sharing.cells := Array.mem_of_getElem? cell
  simp only [sharing, List.mem_toArray, List.mem_cons, reduceCtorEq, Cell.var.injEq, false_or,
    List.not_mem_nil, or_false] at mem
  obtain rfl | rfl := mem
  · exact ⟨⟨'λ', some 0.5⟩, by decide +kernel, by decide +kernel⟩
  · exact ⟨⟨'x', none⟩, by decide +kernel, by decide +kernel⟩

theorem sharing_numbered : sharing.Numbered := by
  intro i x _ cell number
  have mem : Cell.number x ∈ sharing.cells := Array.mem_of_getElem? cell
  simp only [sharing, List.mem_toArray, List.mem_cons, reduceCtorEq, Cell.number.injEq, false_or,
    List.not_mem_nil, or_false] at mem
  obtain rfl | rfl | rfl | rfl := mem
  · decide
  · decide
  · exact absurd number (by decide)
  · decide

/-- The shared product is written twice, and the two symbols are registered anew, in the order
in which they are met. -/
theorem ofPolish_sharing :
    sharing.root = some 12 ∧ sharing.Acyclic ∧ sharing.Lettered ∧ sharing.Numbered ∧
    ∃ (t : Term Char) (text : String) (g : Forest) (s : Nat),
      sharing.term? 12 = some (t.map Key.ofSymbol) ∧ (∀ c ∈ t.names, sharing.registry.Lists c) ∧
      sharing.polish = .ok text ∧ ofPolish text = .ok g ∧
      g.root = some s ∧ g.term? s = some (t.map Key.ofSymbol) ∧ g.TreeShaped ∧
      g.size = t.size ∧ g.retired = #[] ∧
      g.registry.entries = t.names.eraseDups.map (⟨·, none⟩) :=
  ⟨rfl, sharing_acyclic, sharing_lettered, sharing_numbered,
    ofPolish_polish rfl sharing_acyclic sharing_lettered sharing_numbered⟩

end Forest

end Fluxion
