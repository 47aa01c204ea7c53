import Writz.Node.Buffer
import Writz.Node.Number

/-!
# P2WPKH payments

`payment.ts`: a payment of one key's outputs to one recipient. Building and signing the transaction is
left to `bitcoinjs-lib`; amounts are numbers in the range where they are exact.
-/

namespace Writz.BitcoinScript

open Node

/-- Below this a P2WPKH change output is uneconomic to spend; it goes to fees. -/
def P2WPKH_DUST_LIMIT_SAT : Int := 294
def TX_OVERHEAD_VB : Nat := 11
def P2WPKH_INPUT_VB : Nat := 68

/-- One spendable output of the payer's P2WPKH address. -/
structure P2wpkhUtxo where
  txid : Text
  vout : Nat
  value : Nat
  deriving DecidableEq

structure P2wpkhPayment where
  txHex : Text
  txid : Text
  feeSat : Int
  /-- 0 when the change was below the dust limit and went to fees. -/
  changeSat : Int
  /-- The UTXOs this transaction spends. -/
  inputs : List P2wpkhUtxo
  deriving DecidableEq

/-- What a payment needs of the key and of `bitcoinjs-lib`. -/
structure Payer where
  /-- `bitcoin.address.toOutputScript`; `none` where it throws. -/
  outputScript : Text → Option Bytes
  /-- The payer's own P2WPKH script. -/
  changeScript : Bytes
  /-- The hex and the id of the signed transaction, of its inputs, recipient, amount and change; `none`
  where building it throws. -/
  sign : List P2wpkhUtxo → Text → Nat → Int → Option (Text × Text)

/-- An id that the payer's transactions can have. -/
def Payer.Signs (P : Payer) (txid : Text) : Prop :=
  ∃ inputs recipient amountSat changeSat txHex,
    P.sign inputs recipient amountSat changeSat = some (txHex, txid)

/-- The id of a transaction is of the outpoints it spends. -/
def Payer.Commits (P : Payer) : Prop :=
  ∀ inputs recipient amountSat changeSat txHex inputs' recipient' amountSat' changeSat' txHex' txid,
    P.sign inputs recipient amountSat changeSat = some (txHex, txid) →
      P.sign inputs' recipient' amountSat' changeSat' = some (txHex', txid) →
        (inputs.map fun u => (u.txid, u.vout)) = inputs'.map fun u => (u.txid, u.vout)

inductive PaymentError where
  | insufficientFunds (availableSat : Nat) (requiredSat : Option Int)
  | error (message : Text)
  deriving DecidableEq

def outputVbytes (script : Bytes) : Nat := 8 + 1 + script.length

/-- Estimated vsize of a transaction with `inputs` P2WPKH inputs and the given outputs. -/
def estimateP2wpkhVsize (inputs : Nat) (outputScripts : List Bytes) : Nat :=
  TX_OVERHEAD_VB + inputs * P2WPKH_INPUT_VB + (outputScripts.map outputVbytes).sum

/-- `Math.ceil(vsize * feeRate)`; `none` for infinity. -/
def feeOf (vsize : Nat) (feeRate : Rat) : Option Int :=
  match Number.ofRat (vsize * feeRate) with
  | .finite q => some q.ceil
  | .infinite _ => none

/-- `Math.ceil(vsize * feeRate)` where the product is exact. -/
def exactFeeOf (vsize : Nat) (feeRate : Rat) : Option Int := some (vsize * feeRate).ceil

structure Selection where
  selected : List P2wpkhUtxo
  feeSat : Int
  changeSat : Int

section Select

/-! The fee of a size is a parameter of the loop. -/

variable (fee : Nat → Option Int) (recipientScript changeScript : Bytes) (amountSat : Nat)

/-- The fee and the change with these inputs, where they cover the amount. -/
def covers (selected : List P2wpkhUtxo) (total : Nat) : Option (Int × Int) :=
  let feeWithChange := fee (estimateP2wpkhVsize selected.length [recipientScript, changeScript])
  match feeWithChange.filter fun fee => P2WPKH_DUST_LIMIT_SAT ≤ (total : Int) - amountSat - fee with
  | some fee => some (fee, (total : Int) - amountSat - fee)
  | none =>
    let feeNoChange := fee (estimateP2wpkhVsize selected.length [recipientScript])
    if feeNoChange.any fun fee => fee ≤ (total : Int) - amountSat then
      some ((total : Int) - amountSat, 0)
    else
      none

/-- Takes inputs in order until they cover the amount and the fee. -/
def select (selected : List P2wpkhUtxo) (total : Nat) : List P2wpkhUtxo → Option Selection
  | [] => none
  | utxo :: utxos =>
    let selected := selected ++ [utxo]
    let total := total + utxo.value
    match covers fee recipientScript changeScript amountSat selected total with
    | some (feeSat, changeSat) => some { selected, feeSat, changeSat }
    | none => select selected total utxos

end Select

/-- Signs a payment of the selected inputs. -/
def signSelection (P : Payer) (recipient : Text) (amountSat : Nat) (s : Selection) :
    Except PaymentError P2wpkhPayment := do
  let (txHex, txid) ← okOr (P.sign s.selected recipient amountSat s.changeSat) (.error "cannot sign".toList)
  .ok { txHex, txid, feeSat := s.feeSat, changeSat := s.changeSat, inputs := s.selected }

/-- Builds and signs a payment of `amountSat` to `recipient`; `fee` is the fee of a size at a rate. -/
def buildPaymentWith (fee : Nat → Rat → Option Int) (P : Payer) (utxos : List P2wpkhUtxo) (recipient : Text)
    (amountSat : Nat) (feeRate : Rat) : Except PaymentError P2wpkhPayment := do
  failIf (amountSat = 0 ∨ 2 ^ 53 ≤ amountSat) (.error "amountSat must be a positive integer".toList)
  failIf (feeRate ≤ 0) (.error "feeRate must be positive".toList)
  let recipientScript ← okOr (P.outputScript recipient) (.error "has no matching Script".toList)
  match select (fee · feeRate) recipientScript P.changeScript amountSat [] 0 utxos with
  | none =>
    let minFee := fee (estimateP2wpkhVsize (max 1 utxos.length) [recipientScript]) feeRate
    .error (.insufficientFunds (utxos.map P2wpkhUtxo.value).sum (minFee.map (amountSat + ·)))
  | some s => signSelection P recipient amountSat s

/-- Builds and signs a payment of `amountSat` to `recipient`. -/
def buildP2wpkhPayment (P : Payer) (utxos : List P2wpkhUtxo) (recipient : Text) (amountSat : Nat) (feeRate : Rat) :
    Except PaymentError P2wpkhPayment :=
  buildPaymentWith feeOf P utxos recipient amountSat feeRate

/-- The inputs are the first ones that cover the payment, and at least one. -/
theorem select_prefix {fee : Nat → Option Int} {recipientScript changeScript : Bytes} {amountSat : Nat}
    {utxos : List P2wpkhUtxo} : ∀ {selected : List P2wpkhUtxo} {total : Nat} {s : Selection},
      select fee recipientScript changeScript amountSat selected total utxos = some s →
        s.selected ≠ [] ∧ ∃ taken, s.selected = selected ++ taken ∧ taken <+: utxos := by
  induction utxos with
  | nil =>
    intro selected total s h
    cases h
  | cons utxo utxos ih =>
    intro selected total s h
    unfold select at h
    dsimp only at h
    split at h
    · cases h
      exact ⟨List.append_ne_nil_of_right_ne_nil _ (List.cons_ne_nil _ _), [utxo], rfl,
        List.prefix_append [utxo] utxos⟩
    · obtain ⟨hne, taken, heq, htaken⟩ := ih h
      refine ⟨hne, utxo :: taken, ?_, (List.prefix_cons_inj utxo).mpr htaken⟩
      rw [heq, List.append_assoc]
      rfl

/-- A payment spends the first of the given coins, at least one, and has the id its signing gives. -/
theorem buildP2wpkhPayment_eq_ok {P : Payer} {utxos : List P2wpkhUtxo} {recipient : Text} {amountSat : Nat}
    {feeRate : Rat} {payment : P2wpkhPayment}
    (h : buildP2wpkhPayment P utxos recipient amountSat feeRate = .ok payment) :
    payment.inputs ≠ [] ∧ payment.inputs <+: utxos ∧
      P.sign payment.inputs recipient amountSat payment.changeSat = some (payment.txHex, payment.txid) := by
  simp only [buildP2wpkhPayment, buildPaymentWith, bind_eq_ok, okOr_eq_ok] at h
  obtain ⟨_, -, _, -, recipientScript, -, h⟩ := h
  split at h
  · cases h
  · rename_i s hselect
    simp only [signSelection, bind_eq_ok, okOr_eq_ok] at h
    obtain ⟨⟨txHex, txid⟩, hsign, h⟩ := h
    cases h
    obtain ⟨hne, taken, heq, htaken⟩ := select_prefix hselect
    rw [List.nil_append] at heq
    refine ⟨hne, ?_, hsign⟩
    rw [← heq] at htaken
    exact htaken

end Writz.BitcoinScript
