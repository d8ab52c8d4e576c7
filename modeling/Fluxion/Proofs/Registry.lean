import Fluxion.Evaluation
import Fluxion.Text.Alphabetic
import Mathlib.Data.List.Induction
import Mathlib.Data.List.Nodup

/-!
# Symbols and values of a registry

Symbols with different keys are registered once each. An assignment reaches the value of one
key, and no symbol is ever lost.
-/

namespace Fluxion

theorem isAlphabetic_of_isAlpha {c : Char} (h : c.isAlpha = true) : isAlphabetic c = true := by
  have letters : ∀ n ∈ List.range' 65 26 ++ List.range' 97 26,
      (alphabeticPoints.place n % 2 == 1) = true := by
    decide +kernel
  have between (a b : Char) (inside : a.val ≤ c.val ∧ c.val ≤ b.val) :
      a.toNat ≤ c.toNat ∧ c.toNat < b.toNat + 1 :=
    ⟨UInt32.le_iff_toNat_le.mp inside.1, Nat.lt_succ_of_le (UInt32.le_iff_toNat_le.mp inside.2)⟩
  have cases : (c.isUpper || c.isLower) = true := h
  refine letters c.toNat ?_
  rw [List.mem_append, List.mem_range'_1, List.mem_range'_1]
  rcases (Bool.or_eq_true _ _).mp cases with upper | lower
  · exact Or.inl (between 'A' 'Z' (of_decide_eq_true upper))
  · obtain ⟨first, last⟩ := Bool.and_eq_true_iff.mp lower
    exact Or.inr (between 'a' 'z' ⟨of_decide_eq_true first, of_decide_eq_true last⟩)

namespace Registry

variable {r r' : Registry} {names : List Char} {symbol c d : Char} {x : Float} {key : Key}
  {e : Entry}

/-! ### Registered symbols -/

/-- The symbol is the one that its key is registered under. -/
def Lists (r : Registry) (c : Char) : Prop := ∃ v, r.findSymbol? c = some ⟨c, v⟩

theorem key_of_find? {key : Key} {e : Entry} (h : r.find? key = some e) : e.key = key := by
  simpa using List.find?_some h

theorem lists_of_find? {key : Key} {e : Entry} (h : r.find? key = some e) : r.Lists e.symbol := by
  have own : Key.ofSymbol e.symbol = key := key_of_find? h
  exact ⟨e.value, by rw [findSymbol?, own, h]⟩

/-- Symbols that are listed under one key are the same. -/
theorem Lists.eq {c d : Char} (hc : r.Lists c) (hd : r.Lists d)
    (key : Key.ofSymbol c = Key.ofSymbol d) : c = d := by
  obtain ⟨v, hc⟩ := hc
  obtain ⟨w, hd⟩ := hd
  rw [findSymbol?, key, ← findSymbol?, hd] at hc
  cases hc
  rfl

theorem findSymbol?_map (cs : List Char) (c : Char)
    (apart : ∀ d ∈ cs, Key.ofSymbol d = Key.ofSymbol c → d = c) :
    ((Registry.mk (cs.map (⟨·, none⟩))).findSymbol? c).isSome ↔ c ∈ cs := by
  rw [findSymbol?, find?, List.find?_isSome]
  constructor
  · rintro ⟨e, he, key⟩
    obtain ⟨d, hd, rfl⟩ := List.mem_map.mp he
    exact apart d hd (by simpa [Entry.key] using key) ▸ hd
  · intro hc
    exact ⟨⟨c, none⟩, List.mem_map_of_mem hc, by simp [Entry.key]⟩

/-- Symbols with different keys are registered once each. -/
theorem foldl_register
    (apart : ∀ c ∈ names, ∀ d ∈ names, Key.ofSymbol c = Key.ofSymbol d → c = d) :
    names.foldl register {} = ⟨names.eraseDups.map (⟨·, none⟩)⟩ := by
  induction names using List.reverseRecOn with
  | nil => rfl
  | append_singleton cs c ih =>
    have before : cs.foldl register {} = ⟨cs.eraseDups.map (⟨·, none⟩)⟩ :=
      ih fun a ha b hb => apart a (by simp [ha]) b (by simp [hb])
    have found := findSymbol?_map cs.eraseDups c fun d hd key =>
      apart d (by simp [List.mem_eraseDups.mp hd]) c (by simp) key
    rw [List.mem_eraseDups] at found
    rw [List.foldl_append, before, List.foldl_cons, List.foldl_nil, List.eraseDups_append,
      register]
    by_cases seen : c ∈ cs
    · obtain ⟨e, he⟩ := Option.isSome_iff_exists.mp (found.mpr seen)
      simp [he, List.removeAll, seen]
    · have absent : (Registry.mk (cs.eraseDups.map (⟨·, none⟩))).findSymbol? c = none := by
        simpa using mt found.mp seen
      simp [absent, List.removeAll, seen, List.eraseDups_cons]

theorem isSome_register (r : Registry) (c : Char) : ((r.register c).findSymbol? c).isSome := by
  unfold register
  split
  · next e he => rw [he, Option.isSome_some]
  · next absent =>
    rw [findSymbol?, find?, List.find?_append]
    simp [Entry.key]

/-- No symbol is lost when others are registered. -/
theorem isSome_foldl_register (h : (r.findSymbol? symbol).isSome) (names : List Char) :
    ((names.foldl register r).findSymbol? symbol).isSome := by
  induction names generalizing r with
  | nil => exact h
  | cons c names ih =>
    apply ih
    unfold register
    split
    · exact h
    · obtain ⟨e, he⟩ := Option.isSome_iff_exists.mp h
      change r.entries.find? _ = some e at he
      rw [findSymbol?, find?, List.find?_append, he]
      rfl

theorem isSome_foldl_register_of_mem (h : c ∈ names) (r : Registry) :
    ((names.foldl register r).findSymbol? c).isSome := by
  obtain ⟨before, after, rfl⟩ := List.append_of_mem h
  rw [List.foldl_append, List.foldl_cons]
  exact isSome_foldl_register (isSome_register _ c) after

theorem find?_register (r : Registry) (c : Char) (key : Key) : (r.register c).find? key =
    (r.find? key).or (if key = .ofSymbol c then some ⟨c, none⟩ else none) := by
  unfold register
  split
  · next e he =>
    by_cases same : key = .ofSymbol c
    · rw [same]
      change r.find? (.ofSymbol c) = some e at he
      rw [he]
      rfl
    · rw [if_neg same, Option.or_none]
  · rw [find?, List.find?_append]
    congr 1
    by_cases same : key = .ofSymbol c
    · simp [Entry.key, same]
    · simp [Entry.key, same, Ne.symm same]

theorem mem_of_mem_foldl_register (h : e ∈ (names.foldl register r).entries) :
    e ∈ r.entries ∨ e.symbol ∈ names := by
  induction names generalizing r with
  | nil => exact Or.inl h
  | cons c names ih =>
    rcases ih h with before | later
    · unfold register at before
      split at before
      · exact Or.inl before
      · rcases List.mem_append.mp before with before | added
        · exact Or.inl before
        · rw [List.mem_singleton.mp added]
          exact Or.inr List.mem_cons_self
    · exact Or.inr (List.mem_cons_of_mem c later)

def Alphabetic (r : Registry) : Prop := ∀ c ∈ r.symbols, isAlphabetic c = true

theorem Alphabetic.of_isAlpha (h : ∀ c ∈ r.symbols, c.isAlpha = true) : r.Alphabetic :=
  fun c hc => isAlphabetic_of_isAlpha (h c hc)

theorem Alphabetic.of_find? (h : r.Alphabetic) {key : Key} {e : Entry}
    (found : r.find? key = some e) : isAlphabetic e.symbol = true :=
  h e.symbol (List.mem_map_of_mem (List.mem_of_find?_eq_some found))

/-! ### The symbols in whose place others stand -/

/-- The symbol that the key of `c` is registered under, if there is one. -/
def named (r : Registry) (c : Char) : Char :=
  match r.findSymbol? c with
  | some e => e.symbol
  | none => c

theorem named_of_findSymbol? (h : r.findSymbol? c = some e) : r.named c = e.symbol := by
  rw [named, h]

theorem key_named (r : Registry) (c : Char) : Key.ofSymbol (r.named c) = .ofSymbol c := by
  unfold named
  split
  · next e he => exact key_of_find? he
  · rfl

theorem named_congr (hc : (r.findSymbol? c).isSome) (key : Key.ofSymbol c = .ofSymbol d) :
    r.named c = r.named d := by
  obtain ⟨e, he⟩ := Option.isSome_iff_exists.mp hc
  rw [named_of_findSymbol? he]
  rw [findSymbol?, key] at he
  rw [named_of_findSymbol? he]

theorem named_mem (h : c ∈ names) : (names.foldl register {}).named c ∈ names := by
  obtain ⟨e, he⟩ := Option.isSome_iff_exists.mp (isSome_foldl_register_of_mem h {})
  rw [named_of_findSymbol? he]
  rcases mem_of_mem_foldl_register (List.mem_of_find?_eq_some he) with none | mem
  · cases none
  · exact mem

/-- Symbols stand for themselves if and only if no two of them have one key. -/
theorem named_eq_self_iff : (∀ c ∈ names, (names.foldl register {}).named c = c) ↔
    ∀ c ∈ names, ∀ d ∈ names, Key.ofSymbol c = Key.ofSymbol d → c = d := by
  constructor
  · intro self c hc d hd key
    rw [← self c hc, ← self d hd]
    exact named_congr (isSome_foldl_register_of_mem hc {}) key
  · intro apart c hc
    exact apart _ (named_mem hc) c hc (key_named _ c)

/-! ### What is kept of the symbols -/

/-- No two entries have the same key. -/
def Distinct (r : Registry) : Prop := (r.symbols.map Key.ofSymbol).Nodup

theorem empty_distinct : Distinct {} := List.nodup_nil

theorem find?_map_symbol (r : Registry) (key : Key) :
    (r.find? key).map Entry.symbol = r.symbols.find? fun c => Key.ofSymbol c == key := by
  rw [symbols, List.find?_map]
  rfl

/-- Each entry is found under its symbol. -/
theorem Distinct.findSymbol? (h : r.Distinct) (he : e ∈ r.entries) :
    r.findSymbol? e.symbol = some e := by
  have nodup : (r.entries.map Entry.key).Nodup := by
    rwa [Distinct, symbols, List.map_map] at h
  have found : (r.find? (.ofSymbol e.symbol)).isSome := by
    rw [find?, List.find?_isSome]
    exact ⟨e, he, by simp [Entry.key]⟩
  obtain ⟨e', he'⟩ := Option.isSome_iff_exists.mp found
  have same : e' = e :=
    List.inj_on_of_nodup_map nodup (List.mem_of_find?_eq_some he') he (key_of_find? he')
  rw [Registry.findSymbol?, he', same]

theorem symbols_register (r : Registry) (c : Char) : (r.register c).symbols =
    r.symbols ++ if (r.findSymbol? c).isSome then [] else [c] := by
  unfold register
  split
  · next e he => simp [he]
  · next absent => simp [symbols, absent]

theorem symbols_assign (h : r.assign? symbol x = some r') : r'.symbols = r.symbols := by
  unfold assign? at h
  split at h
  · cases h
  · cases h
    rw [symbols, symbols, List.map_map, List.map_inj_left]
    intro e _
    by_cases own : e.key = .ofSymbol symbol
    · rw [Function.comp, if_pos own]
    · rw [Function.comp, if_neg own]

theorem symbols_clear (r : Registry) : r.clear.symbols = r.symbols := by
  rw [symbols, symbols, clear, List.map_map]
  rfl

/-- A symbol is added at the end, and only under a new key. -/
theorem Distinct.register (h : r.Distinct) (c : Char) : (r.register c).Distinct := by
  rw [Distinct, symbols_register]
  split
  · rwa [List.append_nil]
  · next absent =>
    rw [List.map_append, List.nodup_append_comm]
    refine List.nodup_cons.mpr ⟨?_, h⟩
    intro taken
    obtain ⟨d, hd, key⟩ := List.mem_map.mp taken
    obtain ⟨e, he, rfl⟩ := List.mem_map.mp hd
    rw [Registry.findSymbol?, ← key, ← Registry.findSymbol?, h.findSymbol? he] at absent
    exact absent rfl

theorem Distinct.foldl_register (h : r.Distinct) (names : List Char) :
    (names.foldl Registry.register r).Distinct := by
  induction names generalizing r with
  | nil => exact h
  | cons c names ih => exact ih (h.register c)

/-- What is found in a registry is found, under the same symbol, where more symbols follow. -/
theorem exists_find?_of_prefix (more : r.symbols <+: r'.symbols) (h : r.find? key = some e) :
    ∃ e', r'.find? key = some e' ∧ e'.symbol = e.symbol := by
  obtain ⟨added, more⟩ := more
  have found := find?_map_symbol r key
  rw [h, Option.map_some] at found
  have found' := find?_map_symbol r' key
  rw [← more, List.find?_append, ← found, Option.some_or] at found'
  exact Option.map_eq_some_iff.mp found'

/-! ### Assigned values -/

theorem find?_assign (h : r.assign? symbol x = some r') (key : Key) : r'.find? key =
    (r.find? key).map fun e => if e.key = .ofSymbol symbol then ⟨e.symbol, some x⟩ else e := by
  unfold assign? at h
  split at h
  · cases h
  · cases h
    rw [find?, List.find?_map, find?]
    congr 2
    funext e
    simp only [Function.comp]
    split
    · rfl
    · rfl

/-- An assignment gives its value to one key and leaves the others alone. -/
theorem value_assign (h : r.assign? symbol x = some r') (key : Key) :
    r'.value key = if key = .ofSymbol symbol then .ok x else r.value key := by
  simp only [value, find?_assign h]
  cases found : r.find? key with
  | none =>
    have other : key ≠ .ofSymbol symbol := by
      rintro rfl
      simp [assign?, findSymbol?, found] at h
    rw [if_neg other]
    rfl
  | some e =>
    by_cases same : key = .ofSymbol symbol
    · simp [key_of_find? found, same]
    · simp [key_of_find? found, same]

/-- An entry that is found decides on the value, or on how it is missing. -/
theorem value_of_find? (h : r.find? key = some e) :
    r.value key = e.value.elim (.error (.unbound e.symbol)) .ok := by
  cases v : e.value <;> simp [value, h, v]

/-- There is no value only for want of an entry or of one that is assigned. -/
theorem value_eq_error {fault : Fault} (h : r.value key = .error fault) :
    (r.find? key = none ∧ fault = .unknownKey key) ∨
      ∃ e, r.find? key = some e ∧ fault = .unbound e.symbol := by
  unfold value at h
  split at h
  · next absent =>
    cases h
    exact Or.inl ⟨absent, rfl⟩
  · next e found =>
    split at h
    · cases h
      exact Or.inr ⟨e, found, rfl⟩
    · cases h

/-- Registries that both go on from a third give the same value, or miss it in the same way, if
they have the same assigned. -/
theorem value_eq_of_prefix {r₁ r₂ : Registry} (h : r.find? key = some e)
    (more₁ : r.symbols <+: r₁.symbols) (more₂ : r.symbols <+: r₂.symbols)
    (agree : (r₁.find? key).bind Entry.value = (r₂.find? key).bind Entry.value) :
    r₁.value key = r₂.value key := by
  obtain ⟨e₁, found₁, same₁⟩ := exists_find?_of_prefix more₁ h
  obtain ⟨e₂, found₂, same₂⟩ := exists_find?_of_prefix more₂ h
  have values : e₁.value = e₂.value := by
    simpa [found₁, found₂] using agree
  rw [value_of_find? found₁, value_of_find? found₂, values, same₁, same₂]

/-- Without assignments no key has a value. -/
theorem value_ne_ok {key : Key} (blank : ∀ e ∈ r.entries, e.value = none) :
    r.value key ≠ .ok x := by
  unfold value
  split
  · nofun
  · next e he => rw [blank e (List.mem_of_find?_eq_some he)]; nofun

/-- The same assignment changes nothing when it is made again. -/
theorem assign_again (h : r.assign? symbol x = some r') : r'.assign? symbol x = some r' := by
  have found := find?_assign h (.ofSymbol symbol)
  unfold assign? at h
  split at h
  · cases h
  · next e he =>
    cases h
    change r.find? (.ofSymbol symbol) = some e at he
    rw [he, Option.map_some] at found
    rw [assign?, findSymbol?, found]
    simp only [List.map_map, Option.some.injEq, mk.injEq, List.map_inj_left, Function.comp]
    intro e _
    by_cases same : e.key = .ofSymbol symbol
    · simp only [if_pos same, ite_self]
    · simp only [if_neg same]

theorem exists_assign (h : (r.findSymbol? symbol).isSome) (x : Float) :
    ∃ r', r.assign? symbol x = some r' := by
  obtain ⟨e, he⟩ := Option.isSome_iff_exists.mp h
  exact ⟨_, by rw [assign?, he]⟩

theorem isSome_of_assign (h : r.assign? symbol x = some r') : (r.findSymbol? symbol).isSome := by
  unfold assign? at h
  split at h
  · cases h
  · next e he => rw [he, Option.isSome_some]

end Registry

end Fluxion
