import Mathlib.Data.List.Lex
import Mathlib.Data.UInt
import Mathlib.Order.Defs.LinearOrder

/-! The bytes the server reads and writes, with the order `std::string` compares
them in, and the texts of the source as byte strings. -/

namespace MetricServer.Http

abbrev Byte := UInt8

abbrev Bytes := List Byte

/-- A text of the source as the bytes of its characters. -/
def ascii (s : String) : Bytes := s.toList.map fun c => UInt8.ofNat c.toNat

instance Byte.linearOrder : LinearOrder UInt8 where
  le_refl _ := UInt8.le_refl _
  le_trans _ _ _ := UInt8.le_trans
  le_antisymm _ _ := UInt8.le_antisymm
  le_total := UInt8.le_total
  lt_iff_le_not_ge a b := by
    rw [UInt8.lt_iff_toNat_lt, UInt8.le_iff_toNat_le, UInt8.le_iff_toNat_le]
    omega
  toDecidableLE := inferInstance

/-- `sprintf("%d", n)` and its unsigned and long siblings. -/
def decimal (n : ℤ) : Bytes :=
  let digits := (Nat.toDigits 10 n.natAbs).map fun c => UInt8.ofNat c.toNat
  if n < 0 then ascii "-" ++ digits else digits

end MetricServer.Http
