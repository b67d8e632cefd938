import Mathlib.Data.List.Basic

/-!
# UTF-16

* `utf16Units` : a character as one unit or as a pair of surrogates;
* `charsOfUnits` : the characters of units in which every surrogate has its pair, and `flatMap_utf16Units`: these units.
-/

namespace TelegramClient

def utf16Units (c : Char) : List UInt16 :=
  if c.toNat < 0x10000 then [UInt16.ofNat c.toNat]
  else [UInt16.ofNat (0xD800 + (c.toNat - 0x10000) / 0x400), UInt16.ofNat (0xDC00 + (c.toNat - 0x10000) % 0x400)]

/-- There are none where a surrogate has no pair. -/
def charsOfUnits : List UInt16 → Option (List Char)
  | [] => some []
  | unit :: units =>
    if unit.toNat < 0xD800 ∨ 0xDFFF < unit.toNat then (charsOfUnits units).map (Char.ofNat unit.toNat :: ·)
    else
      match units with
      | [] => none
      | low :: units =>
        if unit.toNat < 0xDC00 ∧ 0xDC00 ≤ low.toNat ∧ low.toNat ≤ 0xDFFF then
          (charsOfUnits units).map
            (Char.ofNat (0x10000 + (unit.toNat - 0xD800) * 0x400 + (low.toNat - 0xDC00)) :: ·)
        else none

theorem toNat_ofNat_of_isValidChar {n : Nat} (h : n.isValidChar) : (Char.ofNat n).toNat = n := by
  rw [Char.ofNat, dif_pos h]
  rfl

section
variable {unit low : UInt16}

theorem utf16Units_of_unit (h : unit.toNat < 0xD800 ∨ 0xDFFF < unit.toNat) : utf16Units (Char.ofNat unit.toNat) = [unit] := by
  have hlt := unit.toNat_lt
  have hvalid : unit.toNat.isValidChar := by
    rcases h with h | h
    · exact .inl h
    · exact .inr ⟨h, by omega⟩
  rw [utf16Units, toNat_ofNat_of_isValidChar hvalid, if_pos (by omega), UInt16.ofNat_toNat]

theorem utf16Units_of_pair (hhigh : 0xD800 ≤ unit.toNat ∧ unit.toNat < 0xDC00)
    (hlow : 0xDC00 ≤ low.toNat ∧ low.toNat ≤ 0xDFFF) :
    utf16Units (Char.ofNat (0x10000 + (unit.toNat - 0xD800) * 0x400 + (low.toNat - 0xDC00))) = [unit, low] := by
  obtain ⟨n, hn⟩ : ∃ n, n = 0x10000 + (unit.toNat - 0xD800) * 0x400 + (low.toNat - 0xDC00) := ⟨_, rfl⟩
  have hvalid : n.isValidChar := .inr ⟨by omega, by omega⟩
  rw [← hn, utf16Units, toNat_ofNat_of_isValidChar hvalid, if_neg (by omega),
    show 0xD800 + (n - 0x10000) / 0x400 = unit.toNat by omega, show 0xDC00 + (n - 0x10000) % 0x400 = low.toNat by omega,
    UInt16.ofNat_toNat, UInt16.ofNat_toNat]

end

theorem flatMap_utf16Units {units : List UInt16} {chars : List Char} (h : charsOfUnits units = some chars) :
    chars.flatMap utf16Units = units := by
  fun_induction charsOfUnits units generalizing chars with
  | case1 =>
    obtain rfl := Option.some.inj h
    rfl
  | case2 unit units hunit ih =>
    obtain ⟨rest, hrest, rfl⟩ := Option.map_eq_some_iff.mp h
    rw [List.flatMap_cons, utf16Units_of_unit hunit, ih hrest, List.singleton_append]
  | case3 => nomatch h
  | case4 unit hunit low units hpair ih =>
    obtain ⟨rest, hrest, rfl⟩ := Option.map_eq_some_iff.mp h
    rw [List.flatMap_cons, utf16Units_of_pair ⟨by omega, hpair.1⟩ hpair.2, ih hrest, List.cons_append,
      List.singleton_append]
  | case5 => nomatch h

end TelegramClient
