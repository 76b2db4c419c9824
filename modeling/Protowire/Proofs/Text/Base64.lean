import Mathlib
import Protowire.Text.Base64

/-!
Base-64 text reads back as the bytes it was written for. A digit tells its six bits, and no digit is
the sign that fills up a short group, so the length of the last group can be told.
-/

namespace Protowire.Text.Base64

theorem value?_digit {n : Nat} (h : n < 64) : value? (digit n) = some n := by
  have hall : ∀ i : Fin 64, value? (digit i) = some i.val := by decide
  exact hall ⟨n, h⟩

theorem digit_ne {n : Nat} (h : n < 64) : digit n ≠ '=' := by
  intro heq
  have hvalue := value?_digit h
  rw [heq] at hvalue
  cases hvalue

theorem ofNat_eq {b : UInt8} {n : Nat} (h : n % 256 = b.toNat) : UInt8.ofNat n = b := by
  apply UInt8.toNat_inj.mp
  rw [UInt8.toNat_ofNat', h]

/-- The induction takes three bytes at a time, as writing does. -/
theorem decode_of_encode (bs : List UInt8) : decode (encode bs) = some bs := by
  fun_induction encode bs with
  | case1 => rfl
  | case2 a n =>
    have ha := a.toNat_lt
    have hn : n / 64 * 64 + n % 64 = n := by omega
    have hrest : n % 16 = 0 := by omega
    have hbyte : UInt8.ofNat (n / 16) = a := ofNat_eq (by omega)
    have hhigh := value?_digit (n := n / 64) (by omega)
    have hlow := value?_digit (n := n % 64) (by omega)
    simp only [decode, hhigh, hlow, hn, hrest, hbyte, Option.bind_eq_bind, Option.bind_some,
      ↓reduceIte]
  | case3 a b n =>
    have ha := a.toNat_lt
    have hb := b.toNat_lt
    have hn : (n / 4096 * 64 + n / 64 % 64) * 64 + n % 64 = n := by omega
    have hrest : n % 4 = 0 := by omega
    have hfirst : UInt8.ofNat (n / 1024) = a := ofNat_eq (by omega)
    have hsecond : UInt8.ofNat (n / 4) = b := ofNat_eq (by omega)
    have h₁ := value?_digit (n := n / 4096) (by omega)
    have h₂ := value?_digit (n := n / 64 % 64) (by omega)
    have h₃ := value?_digit (n := n % 64) (by omega)
    rw [decode.eq_3 _ _ _ (digit_ne (by omega))]
    simp only [h₁, h₂, h₃, hn, hrest, hfirst, hsecond, Option.bind_eq_bind, Option.bind_some,
      ↓reduceIte]
  | case4 a b c rest n ih =>
    have ha := a.toNat_lt
    have hb := b.toNat_lt
    have hc := c.toNat_lt
    have hn : ((n / 262144 * 64 + n / 4096 % 64) * 64 + n / 64 % 64) * 64 + n % 64 = n := by omega
    have hfirst : UInt8.ofNat (n / 65536) = a := ofNat_eq (by omega)
    have hsecond : UInt8.ofNat (n / 256) = b := ofNat_eq (by omega)
    have hthird : UInt8.ofNat n = c := ofNat_eq (by omega)
    have h₁ := value?_digit (n := n / 262144) (by omega)
    have h₂ := value?_digit (n := n / 4096 % 64) (by omega)
    have h₃ := value?_digit (n := n / 64 % 64) (by omega)
    have h₄ := value?_digit (n := n % 64) (by omega)
    have hne := digit_ne (n := n % 64) (by omega)
    rw [decode.eq_4 _ _ _ _ _ (fun _ heq _ => hne heq) (fun heq _ => hne heq)]
    simp only [h₁, h₂, h₃, h₄, hn, hfirst, hsecond, hthird, ih, Option.bind_eq_bind,
      Option.bind_some]
    rfl

end Protowire.Text.Base64
