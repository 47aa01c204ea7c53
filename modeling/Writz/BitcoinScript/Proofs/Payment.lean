import Writz.BitcoinScript.Payment
import Writz.Util.CoinSelection

/-!
# Proofs: the coins of a payment

The loop stops at the first inputs that cover the amount and their own fee, with change where the rest is
worth an output. The fees of the two cases differ by one output at most.
-/

namespace Writz.BitcoinScript

open Node CoinSelection

/-! ## The loop -/

section Loop

variable {fee : Nat → Option Int} {recipientScript changeScript : Bytes} {amountSat : Nat}
  {utxos selected : List P2wpkhUtxo}

/-- What inputs bring. -/
abbrev inputValue (inputs : List P2wpkhUtxo) : Nat := total P2wpkhUtxo.value inputs

theorem inputValue_cons (utxo : P2wpkhUtxo) (taken : List P2wpkhUtxo) :
    inputValue (utxo :: taken) = utxo.value + inputValue taken := by
  rw [← List.singleton_append, inputValue, total_append, total_singleton]

/-- The loop returns the first inputs that cover the amount. -/
theorem select_eq_some : ∀ {selected : List P2wpkhUtxo} {sum : Nat} {s : Selection},
    select fee recipientScript changeScript amountSat selected sum utxos = some s →
      ∃ taken, s.selected = selected ++ taken ∧ taken <+: utxos ∧
        covers fee recipientScript changeScript amountSat s.selected (sum + inputValue taken)
          = some (s.feeSat, s.changeSat) := by
  induction utxos with
  | nil =>
    intro selected sum s h
    cases h
  | cons utxo utxos ih =>
    intro selected sum s h
    unfold select at h
    dsimp only at h
    split at h
    · next feeSat changeSat hcovers =>
      cases h
      refine ⟨[utxo], rfl, List.prefix_append [utxo] utxos, ?_⟩
      rw [inputValue_cons]
      exact hcovers
    · obtain ⟨taken, heq, htaken, hcovers⟩ := ih h
      refine ⟨utxo :: taken, ?_, (List.prefix_cons_inj utxo).mpr htaken, ?_⟩
      · rw [heq, List.append_assoc]
        rfl
      · rw [inputValue_cons, ← Nat.add_assoc]
        exact hcovers

/-- It returns nothing only where no first inputs cover the amount. -/
theorem select_eq_none : ∀ {selected : List P2wpkhUtxo} {sum : Nat},
    select fee recipientScript changeScript amountSat selected sum utxos = none →
      ∀ taken, taken ≠ [] → taken <+: utxos →
        covers fee recipientScript changeScript amountSat (selected ++ taken) (sum + inputValue taken)
          = none := by
  induction utxos with
  | nil =>
    intro selected sum h taken hne htaken
    exact absurd (List.prefix_nil.mp htaken) hne
  | cons utxo utxos ih =>
    intro selected sum h taken hne htaken
    unfold select at h
    dsimp only at h
    split at h
    · cases h
    · next hcovers =>
      cases taken with
      | nil => exact absurd rfl hne
      | cons coin taken =>
        obtain ⟨hcoin, hrest⟩ := List.cons_prefix_cons.mp htaken
        subst hcoin
        rw [inputValue_cons, ← Nat.add_assoc, ← List.singleton_append, ← List.append_assoc]
        by_cases hlast : taken = []
        · rw [hlast, List.append_nil]
          exact hcovers
        · exact ih h taken hlast hrest

end Loop

/-! ## The fee in exact arithmetic -/

section Exact

variable {recipientScript changeScript : Bytes} {amountSat : Nat} {feeRate : Rat}

theorem exactFeeOf_eq (vsize : Nat) : exactFeeOf vsize feeRate = some (feeAt feeRate vsize) := rfl

/-- The estimated size of a transaction that pays the recipient alone. -/
def vsizeNoChange (recipientScript : Bytes) (inputs : Nat) : Nat :=
  estimateP2wpkhVsize inputs [recipientScript]

/-- The change is one more output. -/
theorem estimateP2wpkhVsize_change (inputs : Nat) :
    estimateP2wpkhVsize inputs [recipientScript, changeScript]
      = vsizeNoChange recipientScript inputs + outputVbytes changeScript := by
  simp only [vsizeNoChange, estimateP2wpkhVsize, List.map_cons, List.map_nil, List.sum_cons, List.sum_nil]
  omega

/-- Inputs cover the amount and the fee of a transaction without change. -/
abbrev CoversNoChange (recipientScript : Bytes) (amountSat : Nat) (feeRate : Rat) (inputs : List P2wpkhUtxo) :
    Prop :=
  Covers P2wpkhUtxo.value (fun n => feeAt feeRate (vsizeNoChange recipientScript n)) amountSat inputs

theorem coversNoChange_iff {inputs : List P2wpkhUtxo} :
    CoversNoChange recipientScript amountSat feeRate inputs ↔
      (amountSat : Int) + feeAt feeRate (vsizeNoChange recipientScript inputs.length) ≤ inputValue inputs :=
  Iff.rfl

/-- The estimated size of the transaction that is built: the change is an output where there is any. -/
def builtVsize (recipientScript changeScript : Bytes) (s : Selection) : Nat :=
  estimateP2wpkhVsize s.selected.length
    (recipientScript :: if s.changeSat > 0 then [changeScript] else [])

/-- The selection takes first coins, which pay the amount, the change and the fee. The change is none or
not dust, and the fee covers the size; without change it does so by less than dust and a change output. -/
structure Funded (recipientScript changeScript : Bytes) (amountSat : Nat) (feeRate : Rat)
    (utxos : List P2wpkhUtxo) (s : Selection) : Prop where
  taken : s.selected <+: utxos
  balance : (inputValue s.selected : Int) = amountSat + s.changeSat + s.feeSat
  change : s.changeSat = 0 ∨ P2WPKH_DUST_LIMIT_SAT ≤ s.changeSat
  fee : feeAt feeRate (builtVsize recipientScript changeScript s) ≤ s.feeSat
  slack : s.changeSat = 0 →
    s.feeSat - feeAt feeRate (builtVsize recipientScript changeScript s)
      < P2WPKH_DUST_LIMIT_SAT + feeAt feeRate (outputVbytes changeScript)

theorem builtVsize_of_change {s : Selection} (h : 0 < s.changeSat) :
    builtVsize recipientScript changeScript s
      = vsizeNoChange recipientScript s.selected.length + outputVbytes changeScript := by
  rw [builtVsize, if_pos h, estimateP2wpkhVsize_change]

theorem builtVsize_of_no_change {s : Selection} (h : s.changeSat = 0) :
    builtVsize recipientScript changeScript s = vsizeNoChange recipientScript s.selected.length := by
  rw [builtVsize, h, if_neg (lt_irrefl 0), vsizeNoChange]

/-- With change, without, or not yet covered. -/
theorem covers_cases (recipientScript changeScript : Bytes) (amountSat : Nat) (feeRate : Rat)
    (inputs : List P2wpkhUtxo) (sum : Nat) :
    let withChange := feeAt feeRate
      (vsizeNoChange recipientScript inputs.length + outputVbytes changeScript)
    let noChange := feeAt feeRate (vsizeNoChange recipientScript inputs.length)
    let left : Int := sum - amountSat
    let result := covers (exactFeeOf · feeRate) recipientScript changeScript amountSat inputs sum
    (P2WPKH_DUST_LIMIT_SAT ≤ left - withChange ∧ result = some (withChange, left - withChange)) ∨
      (left - withChange < P2WPKH_DUST_LIMIT_SAT ∧ noChange ≤ left ∧ result = some (left, 0)) ∨
      (left - withChange < P2WPKH_DUST_LIMIT_SAT ∧ left < noChange ∧ result = none) := by
  intro withChange noChange left result
  have hresult : result = if P2WPKH_DUST_LIMIT_SAT ≤ left - withChange then
      some (withChange, left - withChange)
      else if noChange ≤ left then some (left, 0) else none := by
    simp only [result, covers, exactFeeOf_eq, estimateP2wpkhVsize_change, Option.filter_some,
      Option.any_some, decide_eq_true_eq]
    by_cases hdust : P2WPKH_DUST_LIMIT_SAT ≤ left - withChange
    · rw [if_pos hdust, if_pos hdust]
    · rw [if_neg hdust, if_neg hdust]
      rfl
  by_cases hdust : P2WPKH_DUST_LIMIT_SAT ≤ left - withChange
  · left
    exact ⟨hdust, hresult.trans (if_pos hdust)⟩
  · right
    rw [if_neg hdust] at hresult
    by_cases hleft : noChange ≤ left
    · left
      exact ⟨lt_of_not_ge hdust, hleft, hresult.trans (if_pos hleft)⟩
    · right
      exact ⟨lt_of_not_ge hdust, lt_of_not_ge hleft, hresult.trans (if_neg hleft)⟩

/-- Where the loop returns a selection, it is paid for. -/
theorem funded_of_select {utxos : List P2wpkhUtxo} {s : Selection} (hrate : 0 < feeRate)
    (h : select (exactFeeOf · feeRate) recipientScript changeScript amountSat [] 0 utxos = some s) :
    Funded recipientScript changeScript amountSat feeRate utxos s ∧
      CoversNoChange recipientScript amountSat feeRate s.selected := by
  obtain ⟨taken, heq, htaken, hcovers⟩ := select_eq_some h
  rw [List.nil_append] at heq
  subst heq
  rw [Nat.zero_add] at hcovers
  have hfees : feeAt feeRate (vsizeNoChange recipientScript s.selected.length)
      ≤ feeAt feeRate (vsizeNoChange recipientScript s.selected.length + outputVbytes changeScript) :=
    feeAt_mono hrate.le (Nat.le_add_right _ _)
  have houtput : feeAt feeRate (vsizeNoChange recipientScript s.selected.length + outputVbytes changeScript)
      ≤ feeAt feeRate (vsizeNoChange recipientScript s.selected.length)
        + feeAt feeRate (outputVbytes changeScript) := feeAt_add_le
  have hlimit : (0 : Int) < P2WPKH_DUST_LIMIT_SAT := by decide
  rw [coversNoChange_iff]
  rcases covers_cases recipientScript changeScript amountSat feeRate s.selected (inputValue s.selected) with
    ⟨hdust, hresult⟩ | ⟨hdust, hleft, hresult⟩ | ⟨-, -, hresult⟩
  · -- change
    rw [hcovers, Option.some.injEq, Prod.mk.injEq] at hresult
    obtain ⟨hfee, hchange⟩ := hresult
    have hpos : 0 < s.changeSat := by omega
    refine ⟨{ taken := htaken, balance := by omega, change := .inr (by omega), fee := ?_, slack := ?_ }, by omega⟩
    · rw [builtVsize_of_change hpos, hfee]
    · intro hzero
      omega
  · -- the rest goes to the fee
    rw [hcovers, Option.some.injEq, Prod.mk.injEq] at hresult
    obtain ⟨hfee, hchange⟩ := hresult
    refine ⟨{ taken := htaken, balance := by omega, change := .inl hchange, fee := ?_, slack := ?_ }, by omega⟩
    · rw [builtVsize_of_no_change hchange]
      omega
    · intro hzero
      rw [builtVsize_of_no_change hzero]
      omega
  · rw [hcovers] at hresult
    cases hresult

/-- Where it returns none, no first inputs cover the amount, not even none at all. -/
theorem not_covers_of_select {utxos : List P2wpkhUtxo} (hpos : 0 < amountSat) (hrate : 0 < feeRate)
    (h : select (exactFeeOf · feeRate) recipientScript changeScript amountSat [] 0 utxos = none)
    (inputs : List P2wpkhUtxo) (hinputs : inputs <+: utxos) :
    ¬ CoversNoChange recipientScript amountSat feeRate inputs := by
  rw [coversNoChange_iff]
  by_cases hne : inputs = []
  · have hfee : 0 ≤ feeAt feeRate (vsizeNoChange recipientScript inputs.length) := feeAt_nonneg hrate.le
    have hzero : inputValue inputs = 0 := by
      rw [hne]
      rfl
    omega
  · have hnone := select_eq_none h inputs hne hinputs
    rw [List.nil_append, Nat.zero_add] at hnone
    rcases covers_cases recipientScript changeScript amountSat feeRate inputs (inputValue inputs) with
      ⟨-, hresult⟩ | ⟨-, -, hresult⟩ | ⟨-, hleft, -⟩
    · cases hnone.symm.trans hresult
    · cases hnone.symm.trans hresult
    · omega

end Exact

/-! ## The payment -/

section Payment

variable {P : Payer} {utxos : List P2wpkhUtxo} {recipient : Text} {recipientScript : Bytes} {amountSat : Nat}
  {feeRate : Rat}

/-- The build throws for lack of funds. -/
def Insufficient (result : Except PaymentError P2wpkhPayment) : Prop :=
  ∃ available required, result = .error (.insufficientFunds available required)

theorem not_insufficient_signSelection (s : Selection) :
    ¬ Insufficient (signSelection P recipient amountSat s) := by
  rintro ⟨available, required, h⟩
  unfold signSelection at h
  cases hsign : P.sign s.selected recipient amountSat s.changeSat with
  | none =>
    rw [hsign] at h
    cases h
  | some signed =>
    rw [hsign] at h
    cases h

theorem buildPaymentWith_eq {fee : Nat → Rat → Option Int} (hscript : P.outputScript recipient = some recipientScript)
    (hpos : 0 < amountSat) (hsafe : amountSat < 2 ^ 53) (hrate : 0 < feeRate) :
    buildPaymentWith fee P utxos recipient amountSat feeRate
      = match select (fee · feeRate) recipientScript P.changeScript amountSat [] 0 utxos with
        | none => .error (.insufficientFunds (utxos.map P2wpkhUtxo.value).sum
            ((fee (estimateP2wpkhVsize (max 1 utxos.length) [recipientScript]) feeRate).map (amountSat + ·)))
        | some s => signSelection P recipient amountSat s := by
  unfold buildPaymentWith failIf
  rw [if_neg (by omega), if_neg (not_le.mpr hrate), hscript]
  rfl

/-- A payment in exact arithmetic is of a funded selection of first inputs, or funds are insufficient; and
these are exactly where no first inputs cover the amount and their own fee without change. -/
theorem payment_selection (hscript : P.outputScript recipient = some recipientScript) (hpos : 0 < amountSat)
    (hsafe : amountSat < 2 ^ 53) (hrate : 0 < feeRate) :
    ((∃ s, Funded recipientScript P.changeScript amountSat feeRate utxos s ∧
        buildPaymentWith exactFeeOf P utxos recipient amountSat feeRate
          = signSelection P recipient amountSat s) ∨
      Insufficient (buildPaymentWith exactFeeOf P utxos recipient amountSat feeRate)) ∧
    (Insufficient (buildPaymentWith exactFeeOf P utxos recipient amountSat feeRate) ↔
      ∀ inputs, inputs <+: utxos → ¬ CoversNoChange recipientScript amountSat feeRate inputs) := by
  rw [buildPaymentWith_eq hscript hpos hsafe hrate]
  cases hselect : select (exactFeeOf · feeRate) recipientScript P.changeScript amountSat [] 0 utxos with
  | none =>
    refine ⟨.inr ⟨_, _, rfl⟩, fun _ => ?_, fun _ => ⟨_, _, rfl⟩⟩
    exact not_covers_of_select hpos hrate hselect
  | some s =>
    obtain ⟨hfunded, hcovers⟩ := funded_of_select hrate hselect
    refine ⟨.inl ⟨s, hfunded, rfl⟩, fun h => ?_, fun h => ?_⟩
    · exact absurd h (not_insufficient_signSelection s)
    · exact absurd hcovers (h s.selected hfunded.taken)

end Payment

/-! A coin of 100000 sats pays 20000 at 2 sat/vB. -/

namespace Demo

def coin : P2wpkhUtxo where
  txid := "0101010101010101010101010101010101010101010101010101010101010101".toList
  vout := 0
  value := 100000

def recipient : Text := "tb1qmvlsp4pf7fc48q7vt9p93mq36m09ye5hpdz6rn".toList
def recipientScript : Bytes :=
  [0x00, 0x14, 0xdb, 0x3f, 0x00, 0xd4, 0x29, 0xf2, 0x71, 0x53, 0x83, 0xcc, 0x59, 0x42, 0x58, 0xec, 0x11,
    0xd6, 0xde, 0x52, 0x66, 0x97]

def payer : Payer where
  outputScript address := if address = recipient then some recipientScript else none
  changeScript :=
    [0x00, 0x14, 0xa3, 0xc6, 0xb1, 0xee, 0x4a, 0x49, 0xd9, 0xf2, 0xaf, 0x3b, 0x38, 0x02, 0x97, 0x47, 0x44,
      0xfb, 0xa9, 0x24, 0x16, 0x4a]
  sign inputs address amountSat changeSat :=
    if inputs = [coin] ∧ address = recipient ∧ amountSat = 20000 ∧ changeSat = 79718 then
      some (("0200000000010101010101010101010101010101010101010101010101010101010101010101010000" ++
        "000000ffffffff02204e000000000000160014db3f00d429f2715383cc594258ec11d6de5266976637" ++
        "010000000000160014a3c6b1ee4a49d9f2af3b3802974744fba924164a0247304402202de256cdbc3b" ++
        "bbb20a151e669612e2154dd7da61ec62d029eed85c795f10979302202cc6ec352cabb747cc9b83fad1" ++
        "b62907ee53c08b05d4c2f049aa23eafd65510401210" ++
        "2989c0b76cb563971fdc9bef31ec06c3560f3249d6ee9e5d83c57625596e05f6f00000000").toList,
        "5a35b132b8c6cfa36168fa25d4efaa20c237a6cd177301ba4e73ca7fa513201d".toList)
    else none

end Demo

theorem payment_selection_change :
    ∃ s, Funded Demo.recipientScript Demo.payer.changeScript 20000 2 [Demo.coin] s ∧
      buildPaymentWith exactFeeOf Demo.payer [Demo.coin] Demo.recipient 20000 2
        = signSelection Demo.payer Demo.recipient 20000 s := by
  have hscript : Demo.payer.outputScript Demo.recipient = some Demo.recipientScript := rfl
  obtain ⟨houtcome, hfails⟩ := @payment_selection Demo.payer [Demo.coin] Demo.recipient _ 20000 2 hscript
    (by decide) (by decide) (by decide)
  rcases houtcome with h | h
  · exact h
  · have hnot := hfails.mp h [Demo.coin] (List.prefix_refl _)
    have hcovers : CoversNoChange Demo.recipientScript 20000 2 [Demo.coin] := by decide +kernel
    exact absurd hcovers hnot

end Writz.BitcoinScript
