import Fluxion.Proofs.Text.Lexemes

/-!
# Texts of ASCII in bytes

A character of ASCII is one byte, with which no other character begins. So a text of ASCII that
agrees with another one up to some byte has the character that begins with this byte.
-/

namespace Fluxion

open Lexeme

variable {c : Char} {u r : List Char}

theorem ascii_of_isDigit (h : c.isDigit = true) : c.toNat < 128 := by
  have last := of_decide_eq_true (Bool.and_eq_true_iff.mp h).2
  exact Nat.lt_of_le_of_lt last (by decide)

theorem ascii_of_isAlpha (h : c.isAlpha = true) : c.toNat < 128 := by
  rcases Bool.or_eq_true_iff.mp h with upper | lower
  · have last := (of_decide_eq_true upper).2
    exact Nat.lt_of_le_of_lt last (by decide)
  · have last := of_decide_eq_true (Bool.and_eq_true_iff.mp lower).2
    exact Nat.lt_of_le_of_lt last (by decide)

theorem utf8EncodeChar_ascii (h : c.toNat < 128) :
    String.utf8EncodeChar c = [UInt8.ofNat c.toNat] := if_pos (Nat.le_of_lt_succ h)

/-- No other character begins with the byte of a character of ASCII. -/
theorem eq_of_first_byte {d : Char} (hd : d.toNat < 128)
    (h : (String.utf8EncodeChar c).head? = some (UInt8.ofNat d.toNat)) : c = d := by
  have first {k : Nat} {bytes : List UInt8}
      (hk : (UInt8.ofNat k :: bytes).head? = some (UInt8.ofNat d.toNat)) : k % 256 = d.toNat := by
    have := congrArg UInt8.toNat (Option.some.inj hk)
    simp only [UInt8.toNat_ofNat'] at this
    omega
  have value : c.val.toNat = c.toNat := rfl
  apply Char.toNat_inj.mp
  rw [String.utf8EncodeChar] at h
  split at h
  · have := first h
    omega
  · -- A longer encoding begins with a byte that is at least 192.
    split at h
    · have := first h
      omega
    · split at h
      · have := first h
        omega
      · have := first h
        omega

theorem toList_toUTF8 (text : String) :
    text.toUTF8.data.toList = text.toList.flatMap String.utf8EncodeChar := by
  have h : (String.ofList text.toList).toUTF8.data.toList =
      text.toList.flatMap String.utf8EncodeChar := by
    rw [String.toUTF8_eq_toByteArray, String.toByteArray_ofList, List.utf8Encode]
    simp
  rwa [String.ofList_toList] at h

/-- A text of ASCII that begins with the first byte of a character begins with the character. -/
theorem exists_cons_of_take_prefix {ds : List Char} {k : Nat} {xs : List UInt8}
    (ascii : ∀ d ∈ ds, d.toNat < 128)
    (h : (String.utf8EncodeChar c ++ xs).take (k + 1) <+: ds.flatMap String.utf8EncodeChar) :
    ∃ es, ds = c :: es ∧ xs.take k <+: es.flatMap String.utf8EncodeChar := by
  obtain ⟨b, bs, hb⟩ := List.exists_cons_of_ne_nil (String.utf8EncodeChar_ne_nil (c := c))
  rw [hb] at h
  cases ds with
  | nil => exact absurd (List.prefix_nil.mp h) (List.cons_ne_nil _ _)
  | cons d es =>
    have hd := ascii d List.mem_cons_self
    rw [List.flatMap_cons, utf8EncodeChar_ascii hd] at h
    obtain ⟨same, rest⟩ := List.cons_prefix_cons.mp h
    have first : (String.utf8EncodeChar c).head? = some (UInt8.ofNat d.toNat) := by
      rw [hb, List.head?_cons, same]
    have eq := eq_of_first_byte hd first
    rw [eq, utf8EncodeChar_ascii hd] at hb
    obtain ⟨-, rfl⟩ := List.cons.inj hb
    exact ⟨es, by rw [eq], rest⟩

theorem exists_of_bytes_prefix {ds : List Char} (before : ∀ c ∈ u, c.toNat < 128)
    (ascii : ∀ c ∈ ds, c.toNat < 128)
    (h : ((u ++ c :: r).flatMap String.utf8EncodeChar).take (width u + 1) <+:
      ds.flatMap String.utf8EncodeChar) : ∃ r', ds = u ++ c :: r' := by
  induction u generalizing ds with
  | nil =>
    obtain ⟨es, rfl, -⟩ := exists_cons_of_take_prefix ascii h
    exact ⟨es, rfl⟩
  | cons a u ih =>
    have single : a.utf8Size = 1 := by
      rw [← String.length_utf8EncodeChar, utf8EncodeChar_ascii (before a List.mem_cons_self),
        List.length_singleton]
    rw [width_cons, single, Nat.add_comm 1] at h
    obtain ⟨es, rfl, rest⟩ := exists_cons_of_take_prefix ascii h
    obtain ⟨r', rfl⟩ := ih (fun c hc => before c (List.mem_cons_of_mem a hc))
      (fun c hc => ascii c (List.mem_cons_of_mem a hc)) rest
    exact ⟨r', rfl⟩

end Fluxion
