import Writz.Lend.Types

/-!
# A ledger asset

A token that keeps a balance for every address and lets nobody spend what they do not hold.
-/

namespace Writz.Lend

namespace Asset

def balance (t : Store Address Nat) (a : Address) : Nat := (t.lookup a).getD 0

def setBalance (t : Store Address Nat) (a : Address) (n : Nat) : Store Address Nat := t.insert a n

@[simp] theorem balance_setBalance (t : Store Address Nat) (a b : Address) (n : Nat) :
    balance (setBalance t a n) b = if b = a then n else balance t b := by
  unfold balance setBalance
  rw [Store.lookup_insert_eq_ite]
  split_ifs <;> rfl

/-- Debits the sender, then credits the receiver. -/
def transfer (t : Store Address Nat) (src dst : Address) (n : Int) : Option (Store Address Nat) :=
  if 0 ≤ n ∧ n ≤ balance t src then
    let debited := setBalance t src (balance t src - n.toNat)
    some (setBalance debited dst (balance debited dst + n.toNat))
  else
    none

theorem balance_transfer {t t' : Store Address Nat} {src dst : Address} {n : Int}
    (h : transfer t src dst n = some t') (a : Address) :
    (balance t' a : Int)
      = balance t a - (if a = src then n else 0) + (if a = dst then n else 0) := by
  unfold transfer at h
  split_ifs at h with hn
  obtain ⟨h0, hle⟩ := hn
  cases h
  simp only [balance_setBalance]
  rcases eq_or_ne a src with rfl | hs
  · rcases eq_or_ne a dst with rfl | hd
    · simp
      omega
    · simp [hd]
      omega
  · rcases eq_or_ne a dst with rfl | hd
    · simp [hs]
      omega
    · simp [hs, hd]

end Asset

/-- The ledger asset as a token. -/
def asset : Token (Store Address Nat) where
  balance t a := Asset.balance t a
  transfer := Asset.transfer
  balance_nonneg _ _ := Int.natCast_nonneg _
  transfer_nonneg h := by
    unfold Asset.transfer at h
    split_ifs at h with hn
    exact hn.1
  transfer_moves h a := Asset.balance_transfer h a

end Writz.Lend
