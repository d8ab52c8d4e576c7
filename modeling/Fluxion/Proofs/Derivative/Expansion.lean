import Fluxion.Proofs.Derivative.Jet
import Fluxion.Proofs.Derivative.Polynomial

/-!
# Taylor expansion

The expansion of an expression is worth the Taylor sum of its jet, up to the sign of zero, if
simplification of the polynomial mistakes no coefficient for 0 or 1 and not the centre for 0.
-/

namespace Fluxion

namespace Forest

open Expansion

section

variable [Elementary] {σ : Type} {sink : Sink σ} {f g : Forest} {m : Mark} {l : Tree}
  {ts : List Tree} {symbol : Char} {center : Float} {n : Nat} {notes notes' : σ}

/-- Only a forest with a root is expanded. -/
theorem TreeShaped.exists_holds_of_expand (shaped : f.TreeShaped)
    (made : f.expand sink symbol center n notes = .ok g notes') :
    ∃ l, f.Holds ⟨f.registry, f.retired.size⟩ (some l) [] := by
  obtain ⟨live, holds⟩ := shaped.exists_holds
  cases live with
  | some l => exact ⟨l, holds⟩
  | none =>
    obtain ⟨vs, w, -, gathered, -⟩ := expand_eq_ok made
    by_cases defined : Mark.Defines ⟨f.registry, f.retired.size⟩ symbol
    · rw [Watch.gather, bind_ok (discard_ok (Watch.act_ok (Edit.definedKey_ok holds defined))),
        bind_error (discard_error (Watch.simplify_rootless sink notes holds.root))] at gathered
      cases gathered
    · rw [Watch.gather_error sink center n notes defined holds] at gathered
      cases gathered

/-- The polynomial is made from the values of the derivatives at the centre. -/
theorem Holds.expand_eq_ok (h : f.Holds m (some l) ts)
    (made : f.expand sink symbol center n notes = .ok g notes') :
    ∃ vs r u, vs.length = n ∧ m.registry.assign? symbol center = some r ∧
      (∀ k v, vs[k]? = some v →
        ((Term.slope (.ofSymbol symbol))^[k] l.term.pass).value r = .ok v) ∧
      u.term = ((polynomial symbol center vs).map Key.ofSymbol).pass ∧
      g.Holds ⟨(polynomial symbol center vs).names.foldl Registry.register
        (({} : Registry).register symbol), 0⟩ (some u) [] := by
  obtain ⟨vs, w, u, gathered, term, held⟩ := Forest.expand_eq_ok made
  have defined : m.Defines symbol := by
    by_contra undefined
    rw [Watch.gather_error sink center n notes undefined h] at gathered
    cases gathered
  obtain ⟨r, assigned⟩ := Registry.exists_assign (Option.isSome_iff_exists.mpr defined) center
  have gathers := h.gathers sink n notes assigned
  rw [gathered] at gathers
  obtain ⟨length, values⟩ := gathers
  exact ⟨vs, r, u, length, assigned, values, term, held⟩

/-- An expression that is expanded has a jet. -/
theorem TreeShaped.exists_jet (shaped : f.TreeShaped)
    (made : f.expand sink symbol center n notes = .ok g notes') :
    ∃ vs, vs.length = n ∧ f.Jet symbol center vs := by
  obtain ⟨l, holds⟩ := shaped.exists_holds_of_expand made
  obtain ⟨vs, r, -, length, assigned, values, -⟩ := holds.expand_eq_ok made
  exact ⟨vs, length, (holds.jet_iff assigned).mpr values⟩

/-- The values of a jet are finite. -/
theorem Holds.isFinite_of_jet {r : Registry} {vs : List Float} (h : f.Holds m (some l) ts)
    (numbers : ∀ i x, f.Live i → f.cells[i]? = some (.number x) → x.isFinite = true)
    (values : ∀ i key x, f.Live i → f.cells[i]? = some (.var key) → key ≠ .ofSymbol symbol →
      m.registry.value key = .ok x → x.isFinite = true)
    (fcenter : center.isFinite = true) (assigned : m.registry.assign? symbol center = some r)
    (jet : f.Jet symbol center vs) : ∀ v ∈ vs, v.isFinite = true := by
  have finite : l.term.Finite r := by
    refine (h.reregister r).fits_live.finite (fun i hi x => numbers i x (h.live_iff.mpr hi)) ?_
    intro i hi key x hc hx
    rw [Registry.value_assign assigned] at hx
    split at hx
    · cases hx
      exact fcenter
    · next other => exact values i key x (h.live_iff.mpr hi) hc other hx
  intro v hv
  obtain ⟨k, hk⟩ := List.mem_iff_getElem?.mp hv
  exact (finite.pass.slopes (.ofSymbol symbol) k).value ((h.jet_iff assigned).mp jet k v hk)

/-- The expansion is worth the Taylor sum. -/
theorem expand_value (lawful : Elementary.Lawful) (sink : Sink σ) (notes notes' : σ)
    (f g : Forest) (symbol : Char) (center : Float) (n : Nat) (shaped : f.TreeShaped)
    (numbers : ∀ i x, f.Live i → f.cells[i]? = some (.number x) → x.isFinite = true)
    (values : ∀ i key x, f.Live i → f.cells[i]? = some (.var key) → key ≠ .ofSymbol symbol →
      f.registry.value key = .ok x → x.isFinite = true)
    (fcenter : center.isFinite = true) (small : n ≤ 2 ^ 64)
    (made : f.expand sink symbol center n notes = .ok g notes') (vs : List Float)
    (length : vs.length = n) (jet : f.Jet symbol center vs) (clear : ¬Mistaken 0 center)
    (kept : Clear 0 vs) (x : Float) (fx : x.isFinite = true) (s : Float)
    (h : Expansion.sum center x vs = .ok s) :
    ∃ w, g.valueWith symbol x = .ok w ∧ (w == s) = true := by
  obtain ⟨l, holds⟩ := shaped.exists_holds_of_expand made
  obtain ⟨vs', r, u, length', assigned, values', term, held⟩ := holds.expand_eq_ok made
  obtain rfl : vs = vs' :=
    jet.unique ((holds.jet_iff assigned).mpr values') (length.trans length'.symm)
  have finite := holds.isFinite_of_jet numbers values fcenter assigned jet
  -- The symbol is in the registry of the expansion even if no term of the sum has it.
  obtain ⟨r', assigned'⟩ := Registry.exists_assign
    (Registry.isSome_foldl_register (Registry.isSome_register {} symbol)
      (polynomial symbol center vs).names) x
  have bound : r'.value (.ofSymbol symbol) = .ok x := by
    rw [Registry.value_assign assigned', if_pos rfl]
  obtain ⟨w, hw, same⟩ :=
    polynomial_spec lawful bound fx fcenter clear (length ▸ small) finite kept h
  refine ⟨w, ?_, same⟩
  rw [held.valueWith_eq assigned', term]
  exact hw

theorem jet_of_ofTerm {t : Term Char} {r : Registry} {vs : List Float} (h : ofTerm t = .ok f)
    (assigned : f.registry.assign? symbol center = some r)
    (values : ∀ (k : Nat) (lt : k < vs.length),
      ((Term.slope (.ofSymbol symbol))^[k] (t.map Key.ofSymbol).pass).value r = .ok vs[k]) :
    f.Jet symbol center vs := by
  obtain ⟨u, term, held⟩ := holds_of_ofTerm h
  refine (held.jet_iff assigned).mpr fun k v hk => ?_
  obtain ⟨lt, rfl⟩ := List.getElem?_eq_some_iff.mp hk
  rw [term]
  exact values k lt

end

/-- The forest of `x * x`. -/
def square : Forest where
  cells := #[.var (.ofSymbol 'x'), .var (.ofSymbol 'x'), .binary .mul 0 1]
  parents := #[some 2, some 2, none]
  root := some 2
  registry := ⟨[⟨'x', none⟩]⟩

theorem ofTerm_square : ofTerm (.binary .mul (.var 'x') (.var 'x')) = .ok square := rfl

/-- About 1, the square is `1 + 2 * (x - 1) + (x - 1) ^ 2`. -/
theorem expand_value_square :
    @Elementary.Lawful .coarse ∧ square.TreeShaped ∧ @Jet .coarse square 'x' 1 [1, 2, 2] ∧
      ¬Mistaken 0 1 ∧ @Clear .coarse 0 [1, 2, 2] ∧
      @Expansion.sum .coarse 1 3 [1, 2, 2] = .ok 9 ∧
      ∃ g w, @expand .coarse Unit Sink.silent square 'x' 1 3 () = .ok g () ∧
        @valueWith .coarse g 'x' 3 = .ok w ∧ (w == 9) = true := by
  obtain ⟨u, -, held⟩ := holds_of_ofTerm ofTerm_square
  have jet : @Jet .coarse square 'x' 1 [1, 2, 2] :=
    @jet_of_ofTerm .coarse _ _ _ _ ⟨[⟨'x', some 1⟩]⟩ _ ofTerm_square rfl (by decide +kernel)
  have clear : ¬Mistaken 0 1 := by decide +kernel
  have kept : @Clear .coarse 0 [1, 2, 2] := by decide +kernel
  have total : @Expansion.sum .coarse 1 3 [1, 2, 2] = .ok 9 := by decide +kernel
  have returns : (match @expand .coarse Unit Sink.silent square 'x' 1 3 () with
      | .ok _ _ => true
      | .error _ _ => false) = true := by decide +kernel
  refine ⟨Elementary.coarse_lawful, held.treeShaped, jet, clear, kept, total, ?_⟩
  cases made : @expand .coarse Unit Sink.silent square 'x' 1 3 () with
  | error e notes =>
    rw [made] at returns
    cases returns
  | ok g notes =>
    obtain ⟨w, hw, same⟩ := @expand_value .coarse Unit Elementary.coarse_lawful Sink.silent () ()
      square g 'x' 1 3 held.treeShaped (fun i x _ => isFinite_of_number? (by decide +kernel))
      (fun i key x _ _ _ h => absurd h (Registry.value_ne_ok (by simp [square])))
      (by decide +kernel) (by decide) made [1, 2, 2] rfl jet clear kept 3
      (by decide +kernel) 9 total
    exact ⟨g, w, rfl, hw, same⟩

/-- The forest of `x / 10000000000`. -/
def slight : Forest where
  cells := #[.var (.ofSymbol 'x'), .number 1e10, .binary .div 0 1]
  parents := #[some 2, some 2, none]
  root := some 2
  registry := ⟨[⟨'x', none⟩]⟩

theorem ofTerm_slight : ofTerm (.binary .div (.var 'x') (.number 1e10)) = .ok slight := rfl

theorem jet_slight : @Jet .coarse slight 'x' 0 [0, 1e-10] := by
  refine @jet_of_ofTerm .coarse _ _ _ _ ⟨[⟨'x', some 0⟩]⟩ _ ofTerm_slight rfl ?_
  rintro (_ | _ | k) lt
  · rfl
  · rfl
  · simp at lt

/-- The coefficient of `x / 10000000000` is taken for 0. -/
theorem not_expand_value : ¬ ∀ (f g : Forest) (center : Float) (n : Nat), f.TreeShaped →
    (∀ i x, f.Live i → f.cells[i]? = some (.number x) → x.isFinite = true) →
    (∀ i key x, f.Live i → f.cells[i]? = some (.var key) → key ≠ .ofSymbol 'x' →
      f.registry.value key = .ok x → x.isFinite = true) →
    center.isFinite = true →
    @expand .coarse Unit Sink.silent f 'x' center n () = .ok g () →
    ∀ vs : List Float, vs.length = n → @Jet .coarse f 'x' center vs →
    ∀ x : Float, x.isFinite = true → ∀ s, @Expansion.sum .coarse center x vs = .ok s →
    ∃ w, @valueWith .coarse g 'x' x = .ok w ∧ (w == s) = true := by
  intro all
  obtain ⟨u, -, held⟩ := holds_of_ofTerm ofTerm_slight
  have total : @Expansion.sum .coarse 0 1 [0, 1e-10] = .ok 1e-10 := by decide +kernel
  have zero : (match @expand .coarse Unit Sink.silent slight 'x' 0 2 () with
      | .ok g _ => @valueWith .coarse g 'x' 1
      | .error e _ => .error e) = .ok 0 := by decide +kernel
  cases made : @expand .coarse Unit Sink.silent slight 'x' 0 2 () with
  | error e notes =>
    rw [made] at zero
    cases zero
  | ok g notes =>
    rw [made] at zero
    obtain ⟨w, hw, same⟩ := all slight g 0 2 held.treeShaped
      (fun i x _ => isFinite_of_number? (by decide +kernel))
      (fun i key x _ _ _ h => absurd h (Registry.value_ne_ok (by simp [slight])))
      (by decide +kernel) made [0, 1e-10] rfl jet_slight 1 (by decide +kernel) 1e-10 total
    obtain rfl : 0 = w := Except.ok.inj (zero.symm.trans hw)
    exact absurd same (by decide +kernel)

end Forest

end Fluxion
