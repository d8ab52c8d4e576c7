import Fluxion.Proofs.Forest.Laid
import Fluxion.Proofs.Forest.Variables
import Fluxion.Proofs.Infix.Soundness
import Fluxion.Proofs.Polish.Grammar
import Fluxion.Proofs.Polish.RoundTrip

/-!
# Reading a forest that was read again

A forest that was read in either notation is laid out by its term. The text that is written for
it has the same keys in the same order, so it is read as the same forest again, even where two
symbols have one key and only the first of them is written.
-/

namespace Fluxion

/-! ### Symbols that were read -/

theorem Infix.Written.isAlpha {depth level : Nat} {cs : List Char} {t : Term Char}
    (h : Written depth level cs t) : ∀ c ∈ t.names, c.isAlpha = true := by
  induction h with
  | digits blanks ne run finite => simp [Term.names]
  | letter blanks letter => simpa [Term.names] using letter
  | group blanks inner close ih => exact ih
  | call op blanks gap inner close ih => exact ih
  | operand loose tighter ih => exact ih
  | operation op precedence left blanks right ihl ihr =>
    rw [Term.names, List.forall_mem_append]
    exact ⟨ihl, ihr⟩

theorem Infix.Statement.isAlpha {cs : List Char} {t : Term Char} (h : Statement cs t) :
    ∀ c ∈ t.names, c.isAlpha = true := by
  cases h with
  | ended expression blanks => exact expression.isAlpha
  | terminated expression blanks rest => exact expression.isAlpha

namespace Forest

variable {f g : Forest} {t : Term Char} {text : String}

/-- The forest was read in one of the notations, and the expression is `t`. -/
inductive Read (f : Forest) (t : Term Char) : Prop where
  | ofInfix {text : String} (read : Infix.read text = .ok t) (made : Forest.ofInfix text = .ok f)
  | ofPolish {text : String} (read : Polish.read text = .ok t)
    (made : Forest.ofPolish text = .ok f)

namespace Read

theorem ofTerm (h : f.Read t) : Forest.ofTerm t = .ok f := by
  cases h with
  | ofInfix read made =>
    rw [Forest.ofInfix, read] at made
    exact made
  | ofPolish read made =>
    rw [Forest.ofPolish, read] at made
    exact made

theorem laid (h : f.Read t) : f.Laid (t.names.foldl .register {}) (t.map Key.ofSymbol) :=
  laid_of_ofTerm h.ofTerm

theorem isAlphabetic (h : f.Read t) : ∀ c ∈ t.names, isAlphabetic c = true := by
  cases h with
  | ofInfix read made =>
    intro c hc
    exact isAlphabetic_of_isAlpha ((Infix.statement_of_read read).isAlpha c hc)
  | ofPolish read made => exact (Polish.written_of_read read).isAlphabetic

theorem findSymbol? (h : f.Read t) {c : Char} (hc : c ∈ t.names) :
    (f.registry.findSymbol? c).isSome := by
  rw [h.laid.registry]
  exact Registry.isSome_foldl_register_of_mem hc {}

theorem named_mem (h : f.Read t) {c : Char} (hc : c ∈ t.names) : f.registry.named c ∈ t.names := by
  rw [h.laid.registry]
  exact Registry.named_mem hc

end Read

/-- The term is written with the symbols that its keys are registered under. -/
theorem foldM_naming_map {r : Registry} (registered : ∀ c ∈ t.names, (r.findSymbol? c).isSome) :
    (t.map Key.ofSymbol).foldM (naming r) = .ok (t.map r.named) := by
  induction t with
  | number x => rfl
  | var c =>
    obtain ⟨e, found⟩ := Option.isSome_iff_exists.mp (registered c (by simp [Term.names]))
    rw [Term.map, Term.map, Registry.named_of_findSymbol? found]
    rw [Registry.findSymbol?] at found
    simp only [Term.foldM, naming, found]
  | unary op t ih =>
    rw [Term.map, Term.foldM, ih registered]
    rfl
  | binary op s t ihs iht =>
    rw [Term.names, List.forall_mem_append] at registered
    rw [Term.map, Term.foldM, ihs registered.1, iht registered.2]
    rfl

namespace Read

theorem foldM_naming (h : f.Read t) :
    (t.map Key.ofSymbol).foldM (naming f.registry) = .ok (t.map f.registry.named) :=
  foldM_naming_map fun _ hc => h.findSymbol? hc

theorem polish (h : f.Read t) : f.polish = .ok (Polish.write (t.map f.registry.named)) := by
  simp only [Forest.polish, h.laid.root]
  rw [program_eq h.laid.fits, Term.term_laid, Algebra.run_program, h.foldM_naming]
  rfl

theorem lettered (h : f.Read t) : f.Lettered := by
  intro i key live cell
  have name : key ∈ f.liveKeys := ⟨i, live, cell⟩
  rw [h.laid.held.mem_liveKeys, Term.term_laid, Term.names_map] at name
  obtain ⟨c, hc, rfl⟩ := List.mem_map.mp name
  obtain ⟨e, found⟩ := Option.isSome_iff_exists.mp (h.findSymbol? hc)
  refine ⟨e, found, h.isAlphabetic e.symbol ?_⟩
  rw [← Registry.named_of_findSymbol? found]
  exact h.named_mem hc

end Read

/-- The forest of `2*y+x/y`. -/
def quotientAndMultiple : Forest where
  cells := #[.number 2, .var (.ofSymbol 'y'), .binary .mul 0 1, .var (.ofSymbol 'x'),
    .var (.ofSymbol 'y'), .binary .div 3 4, .binary .add 2 5]
  parents := #[some 2, some 2, some 6, some 5, some 5, some 6, none]
  root := some 6
  registry := ⟨[⟨'y', none⟩, ⟨'x', none⟩]⟩

/-- The forest of a product of two variables, of which the second one has the symbol of the
first. -/
def confused : Forest where
  cells := #[.var (.ofSymbol 'é'), .var (.ofSymbol 'é'), .binary .mul 0 1]
  parents := #[some 2, some 2, none]
  root := some 2
  registry := ⟨[⟨'é', none⟩]⟩

theorem ofInfix_quotientAndMultiple : ofInfix "2*y+x/y" = .ok quotientAndMultiple := by
  decide +kernel

theorem ofPolish_confused :
    ofPolish "( * ( é nil nil ) ( Ĉ nil nil ) )" = .ok confused := by
  decide +kernel

end Forest

end Fluxion
