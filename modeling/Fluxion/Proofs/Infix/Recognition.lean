import Fluxion.Forest.Text
import Fluxion.Proofs.Forest.Building
import Fluxion.Proofs.Infix.Completeness
import Fluxion.Proofs.Infix.Soundness

/-!
# The language of infix notation

Reading succeeds exactly on the statements of the grammar, and the forest that is made holds
the term that the statement is written for.
-/

namespace Fluxion

theorem Infix.read_iff {text : String} {t : Term Char} :
    read text = .ok t ↔ Statement text.toList t :=
  ⟨statement_of_read, read_of_statement⟩

/-- No text is written for two terms. -/
theorem Infix.Statement.unique {text : String} {s t : Term Char}
    (hs : Statement text.toList s) (ht : Statement text.toList t) : s = t := by
  have h := (read_iff.mpr hs).symm.trans (read_iff.mpr ht)
  cases h
  rfl

namespace Forest

/-- The live expression of the forest of a term. -/
theorem term?_ofTerm (t : Term Char) : ∃ f r, ofTerm t = .ok f ∧ f.root = some r ∧
    f.term? r = some (t.map Key.ofSymbol) := by
  obtain ⟨u, f, hf, term, held⟩ := ofTerm_ok t
  refine ⟨f, u.top, hf, held.root, ?_⟩
  rw [term?_eq held.fits_live, term]

/-- Every term has a forest, so what fails is the reading. -/
theorem eq_error_of_bind_ofTerm {x : Except Fault (Term Char)} {fault : Fault}
    (h : x >>= ofTerm = .error fault) : x = .error fault := by
  rcases Except.bind_eq_error h with unread | ⟨t, -, unmade⟩
  · exact unread
  · obtain ⟨f, -, made, -⟩ := term?_ofTerm t
    cases made.symm.trans unmade

theorem ofInfix_iff (text : String) :
    ((∃ f, ofInfix text = .ok f) ↔ ∃ t, Infix.Statement text.toList t) ∧
      ∀ t, Infix.Statement text.toList t → ∃ f r, ofInfix text = .ok f ∧ f.root = some r ∧
        f.term? r = some (t.map Key.ofSymbol) := by
  have made (t : Term Char) (h : Infix.Statement text.toList t) : ∃ f r,
      ofInfix text = .ok f ∧ f.root = some r ∧ f.term? r = some (t.map Key.ofSymbol) := by
    obtain ⟨f, r, hf, root, term⟩ := term?_ofTerm t
    refine ⟨f, r, ?_, root, term⟩
    rw [ofInfix, Infix.read_iff.mpr h]
    exact hf
  refine ⟨⟨?_, ?_⟩, made⟩
  · rintro ⟨f, hf⟩
    obtain ⟨t, ht, -⟩ := Except.bind_eq_ok hf
    exact ⟨t, Infix.read_iff.mp ht⟩
  · rintro ⟨t, ht⟩
    obtain ⟨f, -, hf, -⟩ := made t ht
    exact ⟨f, hf⟩

/-- Division groups to the left. -/
theorem ofInfix_quotients :
    let t : Term Char := .binary .div (.binary .div (.var 'a') (.var 'b')) (.var 'c')
    Infix.Statement "a/ b/c\n".toList t ∧ ∃ f r, ofInfix "a/ b/c\n" = .ok f ∧
      f.root = some r ∧ f.term? r = some (t.map Key.ofSymbol) := by
  intro t
  have letter (bs : List Char) (blanks : Infix.Blanks bs) (c : Char) (h : c.isAlpha = true) :
      Infix.Written Infix.nestingLimit 2 (bs ++ [c]) (.var c) :=
    .operand (by decide) (.letter blanks h)
  have a := (letter [] .nil 'a' (by decide)).operand (by decide)
  have b := letter [' '] (Infix.Blanks.nil.cons (Or.inl rfl)) 'b' (by decide)
  have c := letter [] .nil 'c' (by decide)
  have quotient := (a.operation .div rfl .nil b).operation .div rfl .nil c
  have statement : Infix.Statement "a/ b/c\n".toList t :=
    .terminated (quotient.operand (by decide)) .nil (fun _ h => absurd h List.not_mem_nil)
  exact ⟨statement, (ofInfix_iff "a/ b/c\n").2 t statement⟩

end Forest

end Fluxion
